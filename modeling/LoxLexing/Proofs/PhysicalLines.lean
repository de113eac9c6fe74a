import Mathlib.Data.List.Chain
import Mathlib.Data.List.TakeWhile
import LoxLexing.Prompt.Pipe
import LoxLexing.Proofs.Sequence

/-!
# Lines that come from a pipe

A pipe carries bytes, and its lines are cut where a byte is a line feed. When the bytes are the UTF-8 form
of a text, the cuts are where a character is a line feed, for no other character has that byte in its form;
so the text can be taken line by line (`line_induction`) on both sides at once.

**The law** (`physicalLines_encode`): what is cut from the UTF-8 form of a text is the forms of its lines
(`textLines`). Nothing is lost between these, and only the last one may lack its line feed (`AreLines`).

What a line ends with in front of its line feed decides what its terminator is, and it is the terminator of any
run of lines that it closes (`splitTerminator_append`).
-/

namespace LoxLexing

/-! ## Bytes of a text -/

/-- The UTF-8 form of a text. -/
def encode (text : List Char) : List UInt8 :=
  text.flatMap String.utf8EncodeChar

theorem encode_append (front behind : List Char) :
    encode (front ++ behind) = encode front ++ encode behind :=
  List.flatMap_append

theorem encode_ne_nil {text : List Char} (nonempty : text ≠ []) : encode text ≠ [] := by
  cases text with
  | nil => exact absurd rfl nonempty
  | cons c text =>
    rw [encode, List.flatMap_cons]
    exact List.append_ne_nil_of_left_ne_nil String.utf8EncodeChar_ne_nil _

theorem toList_toUTF8 (text : String) : text.toUTF8.toList = encode text.toList := by
  have loop (bytes : ByteArray) (i : Nat) (seen : List UInt8) :
      ByteArray.toList.loop bytes i seen = seen.reverse ++ bytes.data.toList.drop i := by
    fun_induction ByteArray.toList.loop bytes i seen with
    | case1 i seen inside ih =>
      have inside' : i < bytes.data.toList.length := inside
      rw [ih, List.drop_eq_getElem_cons inside']
      simp [ByteArray.get!, inside]
    | case2 i seen outside =>
      have outside' : bytes.data.toList.length ≤ i := Nat.le_of_not_lt outside
      rw [List.drop_eq_nil_of_le outside', List.append_nil]
  rw [String.toUTF8_eq_toByteArray, ← String.utf8Encode_toList, ByteArray.toList, loop,
    List.utf8Encode, List.toList_data_toByteArray]
  rfl

/-- The bytes of a text are read as that text. -/
theorem fromUTF8?_encode (text : List Char) :
    String.fromUTF8? ⟨(encode text).toArray⟩ = some (String.ofList text) := by
  have bytes : (⟨(encode text).toArray⟩ : ByteArray) = text.utf8Encode :=
    ByteArray.ext List.data_toByteArray.symm
  have valid : text.utf8Encode.IsValidUTF8 := ⟨text, rfl⟩
  rw [bytes, String.fromUTF8?, dif_pos valid]
  exact congrArg some (String.toByteArray_inj.mp String.toByteArray_ofList.symm)

theorem ten_ne_ofNat {n : Nat} (small : n < 256) (other : n ≠ 10) : (10 : UInt8) ≠ UInt8.ofNat n := by
  intro same
  have := congrArg UInt8.toNat same
  rw [UInt8.toNat_ofNat', Nat.mod_eq_of_lt small] at this
  exact other this.symm

/-- The byte of a line feed is in the form of no other character. -/
theorem ten_notMem_utf8EncodeChar {c : Char} (other : c ≠ '\n') :
    (10 : UInt8) ∉ String.utf8EncodeChar c := by
  have code : c.val.toNat ≠ 10 := by
    intro same
    exact other (Char.ext (UInt32.toNat_inj.mp same))
  have bound : c.val.toNat < 0x110000 := by
    have := c.valid
    simp only [UInt32.isValidChar, Nat.isValidChar] at this
    omega
  intro mem
  simp only [String.utf8EncodeChar] at mem
  -- A form of several bytes has none below 128.
  split at mem
  · exact ten_ne_ofNat (by omega) code (List.mem_singleton.mp mem)
  · split at mem
    · simp only [List.mem_cons, List.not_mem_nil, or_false] at mem
      rcases mem with same | same
      all_goals exact ten_ne_ofNat (by omega) (by omega) same
    · split at mem
      · simp only [List.mem_cons, List.not_mem_nil, or_false] at mem
        rcases mem with same | same | same
        all_goals exact ten_ne_ofNat (by omega) (by omega) same
      · simp only [List.mem_cons, List.not_mem_nil, or_false] at mem
        rcases mem with same | same | same | same
        all_goals exact ten_ne_ofNat (by omega) (by omega) same

theorem ten_notMem_encode {line : List Char} (whole : '\n' ∉ line) : (10 : UInt8) ∉ encode line := by
  intro mem
  obtain ⟨c, inLine, inForm⟩ := List.mem_flatMap.mp mem
  refine ten_notMem_utf8EncodeChar ?_ inForm
  rintro rfl
  exact whole inLine

/-! ## Physical lines -/

/-- A text is nothing, or a last line without a line feed, or a line, a line feed and a text. -/
@[elab_as_elim]
theorem line_induction {motive : List Char → Prop} (nothing : motive [])
    (last : ∀ line, line ≠ [] → '\n' ∉ line → motive line)
    (line : ∀ line rest, '\n' ∉ line → motive rest → motive (line ++ '\n' :: rest))
    (text : List Char) : motive text := by
  have cut := List.takeWhile_append_dropWhile (p := (· != '\n')) (l := text)
  have whole : '\n' ∉ text.takeWhile (· != '\n') := forall_mem_bne_iff.mp (forall_mem_takeWhile _ _)
  match rest : text.dropWhile (· != '\n') with
  | [] =>
    rw [rest, List.append_nil] at cut
    rw [cut] at whole
    cases text with
    | nil => exact nothing
    | cons c text => exact last _ (List.cons_ne_nil c text) whole
  | c :: tail =>
    obtain rfl : c = '\n' := by
      have stops := stops_dropWhile (· != '\n') text
      rw [rest] at stops
      simpa using stops_cons.mp stops
    have shorter : tail.length < text.length := by
      have := congrArg List.length cut
      rw [rest, List.length_append, List.length_cons] at this
      omega
    rw [rest] at cut
    have := line _ tail whole (line_induction nothing last line tail)
    rwa [cut] at this
termination_by text.length

@[simp] theorem physicalLines_nil : physicalLines [] = [] := by
  rw [physicalLines]

theorem physicalLines_of_dropWhile {bytes : List UInt8} {feed : UInt8} {tail : List UInt8}
    (cut : bytes.dropWhile (· != 10) = feed :: tail) :
    physicalLines bytes = (bytes.takeWhile (· != 10) ++ [feed]) :: physicalLines tail := by
  cases bytes with
  | nil => cases cut
  | cons first rest =>
    rw [physicalLines]
    split
    · rename_i none
      rw [cut] at none
      cases none
    · rename_i feed' tail' cut'
      rw [cut] at cut'
      obtain ⟨rfl, rfl⟩ := List.cons.inj cut'
      rfl

theorem physicalLines_append_ten {line : List UInt8} (whole : (10 : UInt8) ∉ line)
    (rest : List UInt8) :
    physicalLines (line ++ 10 :: rest) = (line ++ [10]) :: physicalLines rest := by
  have run := forall_mem_bne_iff.mpr whole
  have cut : (line ++ 10 :: rest).dropWhile (· != 10) = 10 :: rest := by
    rw [List.dropWhile_append_of_pos run, List.dropWhile_cons_of_neg (by decide)]
  rw [physicalLines_of_dropWhile cut, List.takeWhile_append_of_pos run,
    List.takeWhile_cons_of_neg (by decide), List.append_nil]

theorem physicalLines_of_notMem {line : List UInt8} (nonempty : line ≠ [])
    (whole : (10 : UInt8) ∉ line) : physicalLines line = [line] := by
  have run := forall_mem_bne_iff.mpr whole
  cases line with
  | nil => exact absurd rfl nonempty
  | cons first rest =>
    rw [physicalLines]
    split
    · rw [List.takeWhile_eq_self_iff.mpr run]
    · rename_i cut
      rw [List.dropWhile_eq_nil_iff.mpr run] at cut
      cases cut

/-! ## Lines of a text -/

/-- A text cut behind every line feed. -/
def textLines : List Char → List (List Char)
  | [] => []
  | c :: text =>
    if c = '\n' then [c] :: textLines text
    else
      match textLines text with
      | [] => [[c]]
      | line :: lines => (c :: line) :: lines

theorem textLines_append_newline {line : List Char} (whole : '\n' ∉ line) (rest : List Char) :
    textLines (line ++ '\n' :: rest) = (line ++ ['\n']) :: textLines rest := by
  induction line with
  | nil => rfl
  | cons c line ih =>
    rw [List.mem_cons, not_or] at whole
    obtain ⟨other, whole⟩ := whole
    rw [List.cons_append, textLines, if_neg (Ne.symm other), ih whole, List.cons_append]

theorem textLines_of_notMem {line : List Char} (nonempty : line ≠ []) (whole : '\n' ∉ line) :
    textLines line = [line] := by
  induction line with
  | nil => exact absurd rfl nonempty
  | cons c line ih =>
    rw [List.mem_cons, not_or] at whole
    obtain ⟨other, whole⟩ := whole
    rw [textLines, if_neg (Ne.symm other)]
    cases line with
    | nil => rfl
    | cons c' line => rw [ih (List.cons_ne_nil _ _) whole]

/-- The lines of a text make up the text. -/
theorem flatten_textLines (text : List Char) : (textLines text).flatten = text := by
  induction text using line_induction with
  | nothing => rfl
  | last line nonempty whole => rw [textLines_of_notMem nonempty whole, List.flatten_singleton]
  | line line rest whole ih =>
    rw [textLines_append_newline whole, List.flatten_cons, ih, List.append_assoc]
    rfl

/-- What has no line end in it, put on lines, is cut into these lines. -/
theorem textLines_flatMap_newline {lines : List (List Char)} (whole : ∀ line ∈ lines, '\n' ∉ line) :
    textLines (lines.flatMap (· ++ ['\n'])) = lines.map (· ++ ['\n']) := by
  induction lines with
  | nil => rfl
  | cons line lines ih =>
    obtain ⟨first, whole⟩ := List.forall_mem_cons.mp whole
    rw [List.flatMap_cons, List.append_assoc, List.singleton_append, textLines_append_newline first,
      ih whole, List.map_cons]

/-- Where a text is cut, its UTF-8 form is cut. -/
theorem physicalLines_encode (text : List Char) :
    physicalLines (encode text) = (textLines text).map encode := by
  induction text using line_induction with
  | nothing => exact physicalLines_nil
  | last line nonempty whole =>
    rw [textLines_of_notMem nonempty whole]
    exact physicalLines_of_notMem (encode_ne_nil nonempty) (ten_notMem_encode whole)
  | line line rest whole ih =>
    rw [textLines_append_newline whole, List.map_cons, ← ih, encode_append, encode_append]
    exact physicalLines_append_ten (ten_notMem_encode whole) (encode rest)

/-- Lines of which only the last one may lack its line feed. -/
structure AreLines (lines : List (List Char)) : Prop where
  nonempty : ∀ line ∈ lines, line ≠ []
  ended : lines.IsChain fun line _ => line.getLast? = some '\n'

theorem areLines_textLines (text : List Char) : AreLines (textLines text) := by
  induction text using line_induction with
  | nothing => exact ⟨List.forall_mem_nil _, .nil⟩
  | last line nonempty whole =>
    rw [textLines_of_notMem nonempty whole]
    exact ⟨List.forall_mem_singleton.mpr nonempty, .singleton line⟩
  | line line rest whole ih =>
    rw [textLines_append_newline whole]
    have nonempty : line ++ ['\n'] ≠ [] :=
      List.append_ne_nil_of_right_ne_nil _ (List.cons_ne_nil _ _)
    exact ⟨List.forall_mem_cons.mpr ⟨nonempty, ih.nonempty⟩,
      List.isChain_cons.mpr ⟨fun _ _ => List.getLast?_concat, ih.ended⟩⟩

theorem AreLines.of_append {front behind : List (List Char)} (areLines : AreLines (front ++ behind)) :
    AreLines behind :=
  ⟨fun line mem => areLines.nonempty line (List.mem_append_right front mem),
    (List.isChain_append.mp areLines.ended).2.1⟩

/-- In front of a line there is nothing, or a line feed. -/
theorem AreLines.getLast?_flatten {front behind : List (List Char)}
    (areLines : AreLines (front ++ behind)) (goesOn : behind ≠ []) (nonempty : front ≠ []) :
    front.flatten.getLast? = some '\n' := by
  obtain ⟨front, last, rfl⟩ := (List.eq_nil_or_concat' front).resolve_left nonempty
  obtain ⟨next, behind, rfl⟩ := List.exists_cons_of_ne_nil goesOn
  have whole : last ≠ [] := areLines.nonempty last (by simp)
  rw [List.flatten_append, List.flatten_singleton, List.getLast?_append_of_ne_nil _ whole]
  exact (List.isChain_append.mp areLines.ended).2.2 last List.getLast?_concat next rfl

/-- The first lines of a text are the lines of what they make up. -/
theorem textLines_flatten {text : List Char} {front behind : List (List Char)}
    (lines : textLines text = front ++ behind) : textLines front.flatten = front := by
  induction text using line_induction generalizing front with
  | nothing =>
    obtain ⟨rfl, -⟩ := List.append_eq_nil_iff.mp lines.symm
    rfl
  | last line nonempty whole =>
    rw [textLines_of_notMem nonempty whole] at lines
    cases front with
    | nil => rfl
    | cons first front =>
      obtain ⟨rfl, none⟩ := List.cons.inj lines
      obtain ⟨rfl, -⟩ := List.append_eq_nil_iff.mp none.symm
      rw [List.flatten_singleton, textLines_of_notMem nonempty whole]
  | line line rest whole ih =>
    rw [textLines_append_newline whole] at lines
    cases front with
    | nil => rfl
    | cons first front =>
      rw [List.cons_append] at lines
      obtain ⟨rfl, others⟩ := List.cons.inj lines
      have split : (line ++ ['\n']) ++ front.flatten = line ++ '\n' :: front.flatten :=
        List.append_assoc line ['\n'] front.flatten
      rw [List.flatten_cons, split, textLines_append_newline whole, ih others]

/-! ## Terminators -/

theorem splitTerminator_return (body : List Char) :
    splitTerminator (body ++ ['\r', '\n']) = (body, ['\r', '\n']) := by
  simp [splitTerminator]

theorem splitTerminator_newline {body : List Char} (noReturn : body.getLast? ≠ some '\r') :
    splitTerminator (body ++ ['\n']) = (body, ['\n']) := by
  rw [List.getLast?_eq_head?_reverse] at noReturn
  unfold splitTerminator
  rw [List.reverse_append, List.reverse_singleton, List.singleton_append]
  split
  · rename_i same
    rw [(List.cons.inj same).2] at noReturn
    exact absurd rfl noReturn
  · rename_i same
    rw [← (List.cons.inj same).2, List.reverse_reverse]
  · rename_i other
    exact absurd rfl (other _)

theorem splitTerminator_of_getLast? {line : List Char} (noFeed : line.getLast? ≠ some '\n') :
    splitTerminator line = (line, []) := by
  rw [List.getLast?_eq_head?_reverse] at noFeed
  unfold splitTerminator
  split
  · rename_i same
    rw [same] at noFeed
    exact absurd rfl noFeed
  · rename_i same
    rw [same] at noFeed
    exact absurd rfl noFeed
  · rfl

/-- A text ends in one of the line ends, or does not end in a line feed. -/
theorem terminator_cases (line : List Char) :
    (∃ body, line = body ++ ['\r', '\n']) ∨
      (∃ body, line = body ++ ['\n'] ∧ body.getLast? ≠ some '\r') ∨
      line.getLast? ≠ some '\n' := by
  by_cases feed : line.getLast? = some '\n'
  · obtain ⟨init, rfl⟩ := List.getLast?_eq_some_iff.mp feed
    by_cases ret : init.getLast? = some '\r'
    · obtain ⟨body, rfl⟩ := List.getLast?_eq_some_iff.mp ret
      exact .inl ⟨body, by rw [List.append_assoc]; rfl⟩
    · exact .inr (.inl ⟨init, rfl, ret⟩)
  · exact .inr (.inr feed)

theorem append_splitTerminator (line : List Char) :
    (splitTerminator line).1 ++ (splitTerminator line).2 = line := by
  rcases terminator_cases line with ⟨body, rfl⟩ | ⟨body, rfl, noReturn⟩ | noFeed
  · rw [splitTerminator_return]
  · rw [splitTerminator_newline noReturn]
  · rw [splitTerminator_of_getLast? noFeed, List.append_nil]

theorem isLineEnd_splitTerminator {line : List Char} (feed : line.getLast? = some '\n') :
    IsLineEnd (splitTerminator line).2 := by
  rcases terminator_cases line with ⟨body, rfl⟩ | ⟨body, rfl, noReturn⟩ | noFeed
  · rw [splitTerminator_return]
    exact .inr rfl
  · rw [splitTerminator_newline noReturn]
    exact .inl rfl
  · exact absurd feed noFeed

/-- A physical line keeps its terminator when it is added to a group, for in front of it there is nothing or
a line feed. -/
theorem splitTerminator_append {pending line : List Char} (nonempty : line ≠ [])
    (noReturn : pending.getLast? ≠ some '\r') :
    splitTerminator (pending ++ line)
      = (pending ++ (splitTerminator line).1, (splitTerminator line).2) := by
  rcases terminator_cases line with ⟨body, rfl⟩ | ⟨body, rfl, noReturn'⟩ | noFeed
  · rw [← List.append_assoc, splitTerminator_return, splitTerminator_return]
  · have noReturn'' : (pending ++ body).getLast? ≠ some '\r' := by
      rw [List.getLast?_append]
      cases last : body.getLast? with
      | none => exact noReturn
      | some c => rwa [last] at noReturn'
    rw [← List.append_assoc, splitTerminator_newline noReturn'', splitTerminator_newline noReturn']
  · have noFeed' : (pending ++ line).getLast? ≠ some '\n' := by
      rw [List.getLast?_append_of_ne_nil _ nonempty]
      exact noFeed
    rw [splitTerminator_of_getLast? noFeed', splitTerminator_of_getLast? noFeed]

end LoxLexing
