import Mathlib.Data.List.DropRight
import LoxLexing.Proofs.Layout
import LoxLexing.Prompt.Completion

/-!
# What is completed at a cursor

A cursor is given as a number of bytes, the word in front of it is found among characters, and what is added is cut
off a vocabulary word. Three counts have to agree on every line, whatever stands in it.

**The law** (`Cursor.exists_completes`): at every character boundary of a line, the word begins at a character
boundary and is the longest run of word characters that ends there (`WordEndsAt`); to be completed are, in the order
of the vocabulary, just the words that it begins, and each addition completes the line to that word (`Completes`);
and what is shown ahead at the end of a line is the first addition that is not empty (`Hints`).

The hint looks for its word by itself, and by bytes. It finds that of the first addition because word characters
take one byte each (`utf8Length_of_isWordCharacter`), in a line and in the vocabulary.

**What it does not establish.** An offset inside a character is no cursor; nothing is said of what is completed there.
-/

namespace LoxLexing

namespace Cursor

variable {cursor : Cursor} {run : List Char} {word : String}

/-! ## Where a cursor stands -/

theorem atOffset?_append (before after : List Char) :
    atOffset? (before ++ after) (utf8Length before) = some ⟨before, after⟩ := by
  induction before with
  | nil => simp only [List.nil_append, utf8Length_nil, atOffset?]
  | cons c before ih =>
    obtain ⟨size, positive⟩ : ∃ size, c.utf8Size = size + 1 := Nat.exists_eq_add_one.mpr c.utf8Size_pos
    have fits : c.utf8Size ≤ size + utf8Length before + 1 := by omega
    have left : size + utf8Length before + 1 - c.utf8Size = utf8Length before := by omega
    rw [utf8Length_cons, positive, Nat.add_right_comm, List.cons_append, atOffset?, if_pos fits, left, ih]
    rfl

/-- A character boundary of a line cuts it in two, and the cursor there stands between. -/
theorem exists_atOffset? {line : String} {pos : Nat} (boundary : String.Pos.Raw.IsValid line ⟨pos⟩) :
    ∃ cursor, atOffset? line.toList pos = some cursor ∧ cursor.before ++ cursor.after = line.toList ∧
      cursor.offset = pos := by
  obtain ⟨before, after, rfl, size⟩ := String.Pos.Raw.isValid_iff_exists_append.mp boundary
  have measured : utf8Length before.toList = pos := by
    rw [← size_eq_utf8Length]
    exact (congrArg String.Pos.Raw.byteIdx size).symm
  refine ⟨⟨before.toList, after.toList⟩, ?_, String.toList_append.symm, measured⟩
  rw [← measured, String.toList_append]
  exact atOffset?_append before.toList after.toList

/-! ## The word in front of a cursor -/

/-- What stands in front of the word that ends at a cursor. -/
def front (cursor : Cursor) : List Char :=
  cursor.before.rdropWhile isWordCharacter

theorem front_append_word (cursor : Cursor) : cursor.front ++ cursor.word = cursor.before :=
  List.rdropWhile_append_rtakeWhile

theorem isWordCharacter_of_mem_word (cursor : Cursor) : ∀ c ∈ cursor.word, isWordCharacter c = true := by
  intro c mem
  exact List.mem_rtakeWhile_imp mem

/-- No run of word characters that ends at a cursor begins in front of the word. -/
theorem suffix_word (suffix : run <:+ cursor.before) (isRun : ∀ c ∈ run, isWordCharacter c = true) :
    run <:+ cursor.word := by
  obtain ⟨front, split⟩ := suffix
  have backwards : cursor.before.reverse = run.reverse ++ front.reverse := by
    rw [← split, List.reverse_append]
  have isRun' : ∀ c ∈ run.reverse, isWordCharacter c = true := by
    intro c mem
    exact isRun c (List.mem_reverse.mp mem)
  rw [← List.reverse_prefix, word, List.reverse_reverse, backwards, List.takeWhile_append_of_pos isRun']
  exact List.prefix_append _ _

theorem wordStart_eq (cursor : Cursor) : cursor.wordStart = utf8Length cursor.front := by
  rw [wordStart, offset, ← front_append_word, utf8Length_append, Nat.add_sub_cancel]

theorem utf8Size_of_isWordCharacter {c : Char} (isWord : isWordCharacter c = true) : c.utf8Size = 1 := by
  rw [Char.utf8Size_eq_one_iff, UInt32.le_iff_toNat_le]
  simp only [isWordCharacter, Char.isAlphanum, Bool.or_eq_true, beq_iff_eq] at isWord
  obtain ((letter | digit) | rfl) | rfl := isWord
  · have := isAlpha_iff.mp letter
    exact show c.toNat ≤ 127 by omega
  · have := isDigit_iff.mp digit
    exact show c.toNat ≤ 127 by omega
  · decide
  · decide

theorem utf8Length_of_isWordCharacter (isRun : ∀ c ∈ run, isWordCharacter c = true) :
    utf8Length run = run.length := by
  induction run with
  | nil => rfl
  | cons c run ih =>
    obtain ⟨first, others⟩ := List.forall_mem_cons.mp isRun
    rw [utf8Length_cons, utf8Size_of_isWordCharacter first, ih others, List.length_cons, Nat.add_comm]

/-! ## Words to be completed -/

/-- The candidate that a word has in a vocabulary word that it begins. -/
theorem candidate?_eq_some (behind : List Char) (spelled : word.toList = run ++ behind) :
    candidate? run word = some ⟨word, String.ofList behind⟩ := by
  have begins : run.isPrefixOf word.toList = true :=
    List.isPrefixOf_iff_prefix.mpr ⟨behind, spelled.symm⟩
  rw [candidate?, if_pos begins, spelled, List.drop_left]

theorem candidate?_eq_some_iff {candidate : Candidate} :
    candidate? run word = some candidate ↔
      candidate.word = word ∧ word.toList = run ++ candidate.addition.toList := by
  obtain ⟨completed, addition⟩ := candidate
  constructor
  · intro found
    by_cases begins : run.isPrefixOf word.toList = true
    · obtain ⟨behind, spelled⟩ := List.isPrefixOf_iff_prefix.mp begins
      rw [candidate?_eq_some behind spelled.symm, Option.some.injEq, Candidate.mk.injEq] at found
      obtain ⟨rfl, rfl⟩ := found
      exact ⟨rfl, by rw [String.toList_ofList, spelled]⟩
    · rw [candidate?, if_neg begins] at found
      exact absurd found (Option.some_ne_none _).symm
  · rintro ⟨rfl, spelled⟩
    rw [candidate?_eq_some _ spelled, String.ofList_toList]

/-- The words of the candidates are those of a list that the run begins. -/
theorem map_word_filterMap_candidate? (run : List Char) (words : List String) :
    (words.filterMap (candidate? run)).map Candidate.word = words.filter (run.isPrefixOf ·.toList) := by
  induction words with
  | nil => rfl
  | cons word words ih =>
    by_cases begins : run.isPrefixOf word.toList = true
    · simp only [List.filterMap_cons, List.filter_cons, candidate?, if_pos begins, List.map_cons, ih]
    · simp only [List.filterMap_cons, List.filter_cons, candidate?, if_neg begins, ih]

/-- A candidate's word is the word at the cursor and what is to be added. -/
theorem toList_word_of_mem_candidates {candidate : Candidate} (mem : candidate ∈ cursor.candidates) :
    candidate.word.toList = cursor.word ++ candidate.addition.toList := by
  rw [candidates] at mem
  split at mem
  · exact absurd mem List.not_mem_nil
  · obtain ⟨word, -, found⟩ := List.mem_filterMap.mp mem
    obtain ⟨rfl, spelled⟩ := candidate?_eq_some_iff.mp found
    exact spelled

theorem nodup_vocabulary : vocabulary.Nodup := by
  decide +kernel

/-- A longer word is one that something has to be added for. -/
theorem any_candidate?_addition (run : List Char) (word : String) :
    (candidate? run word).any (·.addition != "")
      = (run.isPrefixOf word.toList && decide (utf8Length run < word.utf8ByteSize)) := by
  by_cases begins : run.isPrefixOf word.toList = true
  · obtain ⟨behind, spelled⟩ := List.isPrefixOf_iff_prefix.mp begins
    rw [candidate?_eq_some behind spelled.symm, begins, Bool.true_and, size_eq_utf8Length, ← spelled,
      utf8Length_append, Option.any_some, Bool.eq_iff_iff, decide_eq_true_iff, bne_iff_ne]
    cases behind with
    | nil => simp
    | cons c behind =>
      have longer : 0 < utf8Length (c :: behind) := utf8Length_pos (List.cons_ne_nil c behind)
      simp only [ne_eq, String.ofList_eq_empty_iff, reduceCtorEq, not_false_eq_true, true_iff]
      omega
  · rw [candidate?, if_neg begins, Bool.eq_false_iff.mpr begins]
    rfl

/-- The rest that is shown ahead is the first addition that is not empty. -/
theorem hint?_eq (cursor : Cursor) :
    cursor.hint? = if cursor.after = [] ∧ 2 ≤ cursor.word.length then
      (cursor.candidates.find? (·.addition != "")).map (.dimmed ·.addition) else none := by
  have measured := utf8Length_of_isWordCharacter cursor.isWordCharacter_of_mem_word
  by_cases shown : cursor.after = [] ∧ 2 ≤ cursor.word.length
  · obtain ⟨atEnd, long⟩ := shown
    have isWord : cursor.word.isEmpty = false := by
      rw [List.isEmpty_eq_false_iff, ← List.length_pos_iff]
      omega
    have sameSearch : cursor.candidates.find? (·.addition != "")
        = (vocabulary.find? fun word =>
            cursor.word.isPrefixOf word.toList && decide (utf8Length cursor.word < word.utf8ByteSize)).bind
          (candidate? cursor.word) := by
      simp only [candidates, isWord, Bool.false_eq_true, if_false, List.find?_filterMap, any_candidate?_addition]
    rw [if_pos ⟨atEnd, long⟩, sameSearch, hint?, measured]
    simp only [atEnd, long, List.isEmpty_nil, decide_true, Bool.and_true, if_true]
    rw [Option.map_bind, Option.map_eq_bind]
    refine Option.bind_congr ?_
    intro word found
    have matched := List.find?_some found
    have begins := (Bool.and_eq_true_iff.mp matched).1
    rw [Function.comp_apply, Function.comp_apply, candidate?, if_pos begins, Option.map_some]
  · have hidden : ¬ (cursor.after.isEmpty && decide (2 ≤ utf8Length cursor.word)) = true := by
      rw [measured, Bool.and_eq_true_iff, List.isEmpty_iff, decide_eq_true_iff]
      exact shown
    rw [if_neg shown, hint?, if_neg hidden]

end Cursor

/-! ## The law -/

/-- The word that ends at an offset of a line begins at another: it is the longest run of word characters among all
that end there. -/
structure WordEndsAt (line : String) (pos start : Nat) (before front word : String) : Prop where
  start_le : start ≤ pos
  boundary : String.Pos.Raw.IsValid line ⟨start⟩
  before_eq : Span.slice? ⟨0, pos⟩ line = some before
  front_eq : Span.slice? ⟨0, start⟩ line = some front
  word_eq : Span.slice? ⟨start, pos⟩ line = some word
  isWord : ∀ c ∈ word.toList, c.isAlphanum ∨ c = '_' ∨ c = '.'
  longest : ∀ run : List Char, run <:+ before.toList → (∀ c ∈ run, c.isAlphanum ∨ c = '_' ∨ c = '.') →
    run <:+ word.toList

/-- What is offered for a word at the end of a text: nothing for no word, else what completes the text to each
vocabulary word that the word begins. -/
structure Completes (before front word : String) (offered : List Candidate) : Prop where
  nothing : word = "" → offered = []
  words : word ≠ "" → offered.map (·.word) = vocabulary.filter (word.toList <+: ·.toList)
  once : (offered.map (·.word)).Nodup
  cut : ∀ candidate ∈ offered,
    Span.slice? ⟨word.utf8ByteSize, candidate.word.utf8ByteSize⟩ candidate.word = some candidate.addition
  completed : ∀ candidate ∈ offered, before ++ candidate.addition = front ++ candidate.word

/-- What is shown ahead of a word: the first addition that is not empty, at the end of a line and for a word of two
characters or more. -/
structure Hints (atEnd : Prop) (word : String) (offered : List Candidate) (hint? : Option Piece) : Prop where
  isSome_iff : hint?.isSome ↔ atEnd ∧ 2 ≤ word.length ∧ ∃ candidate ∈ offered, candidate.addition ≠ ""
  first : ∀ piece, hint? = some piece → ∃ earlier candidate later, offered = earlier ++ candidate :: later ∧
    (∀ passed ∈ earlier, passed.addition = "") ∧ candidate.addition ≠ "" ∧ piece = .dimmed candidate.addition

namespace Cursor

variable {cursor : Cursor} {line : String}

theorem isWordCharacter_iff {c : Char} : isWordCharacter c = true ↔ c.isAlphanum ∨ c = '_' ∨ c = '.' := by
  rw [isWordCharacter, Bool.or_eq_true, Bool.or_eq_true, beq_iff_eq, beq_iff_eq, or_assoc]

theorem wordEndsAt (split : cursor.before ++ cursor.after = line.toList) :
    WordEndsAt line cursor.offset cursor.wordStart (String.ofList cursor.before) (String.ofList cursor.front)
      (String.ofList cursor.word) := by
  have parts : line.toList = cursor.front ++ (cursor.word ++ cursor.after) := by
    rw [← split, ← front_append_word, List.append_assoc]
  have measured : cursor.offset = utf8Length cursor.front + utf8Length cursor.word := by
    rw [offset, ← front_append_word, utf8Length_append]
  constructor
  case start_le => exact Nat.sub_le _ _
  case boundary => exact wordStart_eq cursor ▸ isValid_of_toList parts
  case before_eq => exact slice?_of_prefix split.symm
  case front_eq => exact wordStart_eq cursor ▸ slice?_of_prefix parts
  case word_eq =>
    rw [wordStart_eq, measured]
    exact slice?_of_toList parts
  case isWord =>
    intro c mem
    rw [String.toList_ofList] at mem
    exact isWordCharacter_iff.mp (cursor.isWordCharacter_of_mem_word c mem)
  case longest =>
    intro run suffix isRun
    rw [String.toList_ofList] at suffix ⊢
    exact suffix_word suffix fun c mem => isWordCharacter_iff.mpr (isRun c mem)

theorem completes (cursor : Cursor) :
    Completes (String.ofList cursor.before) (String.ofList cursor.front) (String.ofList cursor.word)
      cursor.candidates := by
  have noWord : String.ofList cursor.word = "" ↔ cursor.word.isEmpty = true := by
    rw [String.ofList_eq_empty_iff, List.isEmpty_iff]
  constructor
  case nothing =>
    intro empty
    rw [candidates, if_pos (noWord.mp empty)]
  case words =>
    intro notEmpty
    rw [candidates, if_neg (noWord.not.mp notEmpty), map_word_filterMap_candidate?, String.toList_ofList]
    refine List.filter_congr ?_
    intro word mem
    rw [Bool.eq_iff_iff, List.isPrefixOf_iff_prefix, decide_eq_true_iff]
  case once =>
    rw [candidates]
    split
    · exact List.nodup_nil
    · rw [map_word_filterMap_candidate?]
      exact nodup_vocabulary.filter _
  case cut =>
    intro candidate mem
    have spelled := toList_word_of_mem_candidates mem
    rw [← List.append_nil candidate.addition.toList] at spelled
    have cut := slice?_of_toList spelled
    rw [List.append_nil] at spelled
    rwa [String.ofList_toList, ← utf8Length_append, ← spelled, ← size_eq_utf8Length, ← utf8ByteSize_ofList] at cut
  case completed =>
    intro candidate mem
    rw [← String.toList_inj, String.toList_append, String.toList_append, String.toList_ofList, String.toList_ofList,
      toList_word_of_mem_candidates mem, ← front_append_word, List.append_assoc]

theorem hints (cursor : Cursor) :
    Hints (cursor.after = []) (String.ofList cursor.word) cursor.candidates cursor.hint? := by
  rw [hint?_eq]
  constructor
  case isSome_iff =>
    rw [String.length_ofList]
    by_cases shown : cursor.after = [] ∧ 2 ≤ cursor.word.length
    · rw [if_pos shown, Option.isSome_map, List.find?_isSome]
      simp only [bne_iff_ne, shown, true_and]
    · rw [if_neg shown]
      constructor
      · intro isSome
        exact absurd isSome Bool.false_ne_true
      · intro ⟨atEnd, long, _⟩
        exact absurd ⟨atEnd, long⟩ shown
  case first =>
    intro piece found
    split at found
    · obtain ⟨candidate, first, rfl⟩ := Option.map_eq_some_iff.mp found
      obtain ⟨adds, earlier, later, cut, passed⟩ := List.find?_eq_some_iff_append.mp first
      refine ⟨earlier, candidate, later, cut, ?_, bne_iff_ne.mp adds, rfl⟩
      intro candidate mem
      simpa using passed candidate mem
    · exact absurd found (Option.some_ne_none piece).symm

/-- At every character boundary of a line, the word that ends there is completed, and shown ahead, as it should be. -/
theorem exists_completes {line : String} {pos : Nat} (boundary : String.Pos.Raw.IsValid line ⟨pos⟩) :
    ∃ cursor before front word, atOffset? line.toList pos = some cursor ∧
      WordEndsAt line pos cursor.wordStart before front word ∧
      cursor.completion.1 = pos ∧
      Completes before front word cursor.completion.2 ∧
      Hints (pos = line.utf8ByteSize) word cursor.completion.2 cursor.hint? := by
  obtain ⟨cursor, found, split, rfl⟩ := exists_atOffset? boundary
  have atEnd : cursor.offset = line.utf8ByteSize ↔ cursor.after = [] := by
    rw [size_eq_utf8Length, ← split, utf8Length_append, offset]
    constructor
    · intro nothingBehind
      by_contra notEmpty
      have positive := utf8Length_pos notEmpty
      omega
    · intro nothingBehind
      rw [nothingBehind, utf8Length_nil, Nat.add_zero]
  refine ⟨cursor, _, _, _, found, wordEndsAt split, rfl, completes cursor, ?_⟩
  rw [atEnd]
  exact hints cursor

/-- Behind a letter of two bytes, two more letters are completed and what they lack is shown ahead. -/
theorem exists_completes_umlaut :
    String.Pos.Raw.IsValid "üwh" ⟨4⟩ ∧ ∃ (cursor : Cursor) (before front word : String),
      WordEndsAt "üwh" 4 2 before front word ∧
      cursor.completion = (4, [⟨"while", "ile"⟩]) ∧ Completes before front word cursor.completion.2 ∧
      cursor.hint? = some (.dimmed "ile") ∧ Hints (4 = 4) word cursor.completion.2 cursor.hint? := by
  have boundary : String.Pos.Raw.IsValid "üwh" ⟨4⟩ := by decide
  obtain ⟨cursor, before, front, word, found, ends, -, completes, hints⟩ := exists_completes boundary
  have stands : atOffset? "üwh".toList 4 = some ⟨['ü', 'w', 'h'], []⟩ := by decide +kernel
  obtain rfl := Option.some.inj (found.symm.trans stands)
  refine ⟨boundary, _, before, front, word, ends, ?_, completes, ?_, hints⟩
  · decide +kernel
  · decide +kernel

end Cursor

end LoxLexing
