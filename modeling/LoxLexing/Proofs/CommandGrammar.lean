import LoxLexing.Prompt.Command
import LoxLexing.Proofs.Trimming

/-!
# The grammar of dot-commands

A line that commands something has parts: white space, a dot, a word without white space, and a **tail**, which is
white space, or, behind some, an argument and white space again. An argument neither begins nor ends with white space.

**The law** (`parse?_eq_some_iff_parts`): a line is read as a command and an argument just if it has such parts, with
a word that stands for the command and with this argument. The parts of a line are determined.

The word is compared in lower case. The one rule of lower case that looks at neighbours chooses between the two small
forms of sigma; as no command is spelled with either, the choice does not matter (`ofSpelling?_lowerCaseBy`), and the
law holds for every rule.
-/

namespace LoxLexing

/-! ## The two forms of sigma -/

/-- The lower-case form of a text of which some stands in front. A capital sigma takes its final form where a rule says
so of what stands before and behind it. -/
def lowerCaseBy (isFinal : List Char → List Char → Bool) (before : List Char) : List Char → List Char
  | [] => []
  | c :: behind =>
    (if c = 'Σ' ∧ isFinal before behind = true then ['ς'] else lowerCaseOf c)
      ++ lowerCaseBy isFinal (before ++ [c]) behind

section

variable {text : List Char} (isFinal : List Char → List Char → Bool) (before : List Char)

theorem lowerCaseBy_of_notMem (noSigma : 'Σ' ∉ text) : lowerCaseBy isFinal before text = lowerCase text := by
  induction text generalizing before with
  | nil => rfl
  | cons c text ih =>
    obtain ⟨first, others⟩ := not_or.mp (mt List.mem_cons.mpr noSigma)
    rw [lowerCaseBy, if_neg fun sigma => first sigma.1.symm, ih _ others]
    rfl

/-- Without a rule there is no final form. -/
theorem lowerCaseBy_never (text : List Char) : lowerCaseBy (fun _ _ => false) before text = lowerCase text := by
  induction text generalizing before with
  | nil => rfl
  | cons c text ih =>
    rw [lowerCaseBy, if_neg fun sigma => Bool.false_ne_true sigma.2, ih]
    rfl

/-- One of the small forms stands for each capital sigma. -/
theorem exists_mem_lowerCaseBy (sigma : 'Σ' ∈ text) : ∃ c ∈ lowerCaseBy isFinal before text, c = 'σ' ∨ c = 'ς' := by
  have small : lowerCaseOf 'Σ' = ['σ'] := by decide +kernel
  induction text generalizing before with
  | nil => cases sigma
  | cons c text ih =>
    rw [lowerCaseBy]
    rcases List.mem_cons.mp sigma with rfl | mem
    · by_cases final : isFinal before text = true
      · rw [if_pos ⟨rfl, final⟩]
        exact ⟨'ς', List.mem_cons_self, .inr rfl⟩
      · rw [if_neg fun both => final both.2, small]
        exact ⟨'σ', List.mem_cons_self, .inl rfl⟩
    · obtain ⟨d, mem, form⟩ := ih (before ++ [c]) mem
      exact ⟨d, List.mem_append_right _ mem, form⟩

end

namespace Command

/-! ## Spellings -/

theorem mem_all (command : Command) : command ∈ all := by
  cases command <;> decide

theorem mem_spellings_of_ofSpelling? {word : String} {command : Command} (found : ofSpelling? word = some command) :
    word ∈ command.spellings := by
  simpa using List.find?_some found

/-- No two commands share a spelling. -/
theorem ofSpelling?_eq_some_iff {word : String} {command : Command} :
    ofSpelling? word = some command ↔ word ∈ command.spellings := by
  refine ⟨mem_spellings_of_ofSpelling?, ?_⟩
  have table : ∀ command ∈ all, ∀ word ∈ command.spellings, ofSpelling? word = some command := by decide
  exact table command command.mem_all word

theorem ofSpelling?_lowerCaseBy (isFinal : List Char → List Char → Bool) (before word : List Char) :
    ofSpelling? (String.ofList (lowerCaseBy isFinal before word)) = ofSpelling? (String.ofList (lowerCase word)) := by
  have noForm : ∀ command ∈ all, ∀ word ∈ command.spellings, 'σ' ∉ word.toList ∧ 'ς' ∉ word.toList := by decide
  have unknown (isFinal : List Char → List Char → Bool) (sigma : 'Σ' ∈ word) :
      ofSpelling? (String.ofList (lowerCaseBy isFinal before word)) = none := by
    cases found : ofSpelling? (String.ofList (lowerCaseBy isFinal before word)) with
    | none => rfl
    | some command =>
      obtain ⟨c, mem, form⟩ := exists_mem_lowerCaseBy isFinal before sigma
      obtain ⟨notSmall, notFinal⟩ := noForm command command.mem_all _ (mem_spellings_of_ofSpelling? found)
      rw [String.toList_ofList] at notSmall notFinal
      rcases form with rfl | rfl
      · exact absurd mem notSmall
      · exact absurd mem notFinal
  by_cases sigma : 'Σ' ∈ word
  · rw [unknown isFinal sigma, ← lowerCaseBy_never before, unknown _ sigma]
  · rw [lowerCaseBy_of_notMem isFinal before sigma]

/-! ## Parts of a line -/

/-- What can stand behind the word of a command. -/
inductive Tail where
  | bare (space : List Char)
  | argued (space argument behind : List Char)
deriving DecidableEq, Repr

/-- The parts of a line that commands something. A dot stands between the first two. -/
structure Parts where
  indent : List Char
  word : List Char
  tail : Tail
deriving DecidableEq, Repr

/-- Whether a text holds white space only. -/
def IsSpace (text : List Char) : Prop :=
  ∀ c ∈ text, isWhiteSpace c = true

/-- Whether a text is something that white space does not end nor begin. -/
structure IsArgument (text : List Char) : Prop where
  ne_nil : text ≠ []
  head : ∀ c ∈ text.head?, isWhiteSpace c = false
  last : ∀ c ∈ text.getLast?, isWhiteSpace c = false

namespace Tail

def text : Tail → List Char
  | bare space => space
  | argued space argument behind => space ++ (argument ++ behind)

def argument? : Tail → Option String
  | bare _ => none
  | argued _ argument _ => some (String.ofList argument)

def IsWellFormed : Tail → Prop
  | bare space => IsSpace space
  | argued space argument behind => space ≠ [] ∧ IsSpace space ∧ IsArgument argument ∧ IsSpace behind

variable {tail : Tail}

/-- A tail begins with white space, if with anything. -/
theorem IsWellFormed.stops (wellFormed : tail.IsWellFormed) : Stops (!isWhiteSpace ·) tail.text := by
  intro c head
  rw [Bool.not_eq_false']
  cases tail with
  | bare space => exact wellFormed c (List.mem_of_mem_head? head)
  | argued space argument behind =>
    obtain ⟨notEmpty, isSpace, _⟩ := wellFormed
    obtain ⟨d, rest, rfl⟩ := List.exists_cons_of_ne_nil notEmpty
    obtain rfl := Option.some.inj head
    exact isSpace d List.mem_cons_self

/-- What is left of a tail without the white space at its end still begins with white space, if with anything; and
without that it is the argument. -/
theorem IsWellFormed.trim_trimEnd (wellFormed : tail.IsWellFormed) :
    Stops (!isWhiteSpace ·) (trimEnd tail.text) ∧
      (if (trim (trimEnd tail.text)).isEmpty then none else some (String.ofList (trim (trimEnd tail.text))))
        = tail.argument? := by
  cases tail with
  | bare space =>
    have nothing : trimEnd ([] ++ space) = [] := trimEnd_append_space wellFormed []
    rw [List.nil_append] at nothing
    rw [text, nothing]
    exact ⟨stops_nil _, rfl⟩
  | argued space argument behind =>
    obtain ⟨notEmpty, isSpace, isArgument, isSpace'⟩ := wellFormed
    have last : (space ++ argument).getLast? = argument.getLast? := List.getLast?_append_of_ne_nil _ isArgument.ne_nil
    have whole : trimEnd (space ++ (argument ++ behind)) = space ++ argument := by
      rw [← List.append_assoc, trimEnd_append_space isSpace', trimEnd_of_getLast? (last ▸ isArgument.last)]
    have start : trimStart (space ++ argument) = argument := dropWhile_append_of_stops isSpace isArgument.head
    rw [text, whole, trim, start, trimEnd_of_getLast? isArgument.last,
      if_neg (mt List.isEmpty_iff.mp isArgument.ne_nil)]
    refine ⟨?_, rfl⟩
    obtain ⟨d, rest, rfl⟩ := List.exists_cons_of_ne_nil notEmpty
    rw [List.cons_append, stops_cons, isSpace d List.mem_cons_self]
    rfl

/-- What begins with white space, if with anything, is a tail. -/
theorem exists_eq_text {behind : List Char} (stops : Stops (!isWhiteSpace ·) behind) :
    ∃ tail : Tail, tail.IsWellFormed ∧ tail.text = behind := by
  cases visible : trimStart behind with
  | nil => exact ⟨.bare behind, List.dropWhile_eq_nil_iff.mp visible, rfl⟩
  | cons c rest =>
    have first : isWhiteSpace c = false := by
      have := stops_trimStart behind
      rw [visible] at this
      exact stops_cons.mp this
    obtain ⟨space, isSpace, split⟩ := exists_trimEnd_append (c :: rest)
    have whole : behind.takeWhile isWhiteSpace ++ (c :: rest) = behind :=
      visible ▸ List.takeWhile_append_dropWhile
    refine ⟨.argued (behind.takeWhile isWhiteSpace) (trimEnd (c :: rest)) space, ⟨?_, ?_, ?_, isSpace⟩, ?_⟩
    · intro nothing
      rw [nothing, List.nil_append] at whole
      rw [← whole] at stops
      have space := stops_cons.mp stops
      rw [first] at space
      cases space
    · exact forall_mem_takeWhile _ _
    · constructor
      case ne_nil => rw [trimEnd_cons first]; exact List.cons_ne_nil _ _
      case head => rw [trimEnd_cons first]; exact stops_cons.mpr first
      case last => exact isWhiteSpace_getLast?_trimEnd _
    · rw [text, split, whole]

/-- A tail is determined by its text, for the argument is. -/
theorem IsWellFormed.eq_of_text_eq {other : Tail} (wellFormed : tail.IsWellFormed) (wellFormed' : other.IsWellFormed)
    (same : tail.text = other.text) : tail = other := by
  have arguments := wellFormed.trim_trimEnd.2
  rw [same, wellFormed'.trim_trimEnd.2] at arguments
  cases tail with
  | bare space =>
    cases other with
    | bare space' => exact congrArg bare same
    | argued => cases arguments
  | argued space argument behind =>
    cases other with
    | bare => cases arguments
    | argued space' argument' behind' =>
      obtain rfl := String.ofList_injective (Option.some.inj arguments)
      obtain ⟨_, isSpace, isArgument, _⟩ := wellFormed
      obtain ⟨_, isSpace', _, _⟩ := wellFormed'
      have stops (behind : List Char) : Stops isWhiteSpace (argument' ++ behind) := by
        obtain ⟨c, rest, rfl⟩ := List.exists_cons_of_ne_nil isArgument.ne_nil
        exact stops_cons.mpr (isArgument.head c rfl)
      obtain ⟨rfl, rest⟩ := append_inj_of_stops isSpace isSpace' (stops behind) (stops behind') same
      rw [List.append_cancel_left rest]

end Tail

namespace Parts

def text (parts : Parts) : List Char :=
  parts.indent ++ '.' :: (parts.word ++ parts.tail.text)

structure IsWellFormed (parts : Parts) : Prop where
  indent : IsSpace parts.indent
  ne_nil : parts.word ≠ []
  word : ∀ c ∈ parts.word, isWhiteSpace c = false
  tail : parts.tail.IsWellFormed

variable {parts : Parts}

theorem IsWellFormed.word_visible (wellFormed : parts.IsWellFormed) :
    ∀ c ∈ parts.word, (!isWhiteSpace c) = true := by
  intro c mem
  rw [wellFormed.word c mem]
  rfl

/-- The word of a line with parts is what is looked up, and its argument is what is given. -/
theorem IsWellFormed.parse?_text (wellFormed : parts.IsWellFormed) :
    parse? (String.ofList parts.text)
      = (ofSpelling? (String.ofList (lowerCase parts.word))).map fun command =>
        (command, parts.tail.argument?) := by
  obtain ⟨stops, argument⟩ := wellFormed.tail.trim_trimEnd
  have begins : trimStart parts.text = '.' :: (parts.word ++ parts.tail.text) :=
    dropWhile_append_of_stops wellFormed.indent (stops_cons.mpr rfl)
  have trimmed : trim parts.text = '.' :: (parts.word ++ trimEnd parts.tail.text) := by
    rw [trim, begins, trimEnd_cons rfl, trimEnd_append wellFormed.word]
  have word := takeWhile_append_of_stops wellFormed.word_visible stops
  have behind := dropWhile_append_of_stops wellFormed.word_visible stops
  rw [parse?, String.toList_ofList, trimmed]
  simp only [word, behind, argument]

/-- The parts of a line are determined. -/
theorem IsWellFormed.eq_of_text_eq {other : Parts} (wellFormed : parts.IsWellFormed)
    (wellFormed' : other.IsWellFormed) (same : parts.text = other.text) : parts = other := by
  have dot (rest : List Char) : Stops isWhiteSpace ('.' :: rest) := stops_cons.mpr rfl
  obtain ⟨indent, rest⟩ := append_inj_of_stops wellFormed.indent wellFormed'.indent (dot _) (dot _) same
  obtain ⟨word, tail⟩ := append_inj_of_stops wellFormed.word_visible wellFormed'.word_visible
    wellFormed.tail.stops wellFormed'.tail.stops (List.cons.inj rest).2
  have tail := wellFormed.tail.eq_of_text_eq wellFormed'.tail tail
  cases parts
  cases other
  rw [mk.injEq]
  exact ⟨indent, word, tail⟩

/-- A text has parts if there is a word behind a dot at its start. -/
theorem exists_eq_text {line rest : List Char} (begins : trimStart line = '.' :: rest) (notEmpty : firstWord rest ≠ []) :
    ∃ parts : Parts, parts.IsWellFormed ∧ parts.text = line := by
  obtain ⟨tail, wellFormed, isTail⟩ := Tail.exists_eq_text (stops_behindFirstWord rest)
  refine ⟨⟨line.takeWhile isWhiteSpace, firstWord rest, tail⟩, ⟨forall_mem_takeWhile _ _, notEmpty, ?_, wellFormed⟩, ?_⟩
  · intro c mem
    have visible := forall_mem_takeWhile _ _ c mem
    rwa [Bool.not_eq_true'] at visible
  · rw [text, isTail, firstWord_append_behindFirstWord, ← begins]
    exact List.takeWhile_append_dropWhile

end Parts

/-! ## The law -/

/-- A line that commands something has parts. -/
theorem exists_parts_of_parse? {line : String} {found : Command × Option String} (parsed : parse? line = some found) :
    ∃ parts : Parts, parts.IsWellFormed ∧ parts.text = line.toList := by
  cases begins : trimStart line.toList with
  | nil =>
    rw [parse?, trim, begins] at parsed
    cases parsed
  | cons c rest =>
    have first : isWhiteSpace c = false := by
      have stops := stops_trimStart line.toList
      rw [begins] at stops
      exact stops_cons.mp stops
    rw [parse?, trim, begins, trimEnd_cons first] at parsed
    by_cases dot : c = '.'
    · subst dot
      apply Parts.exists_eq_text begins
      intro nothing
      rw [← firstWord_trimEnd, firstWord] at nothing
      have noWord : ofSpelling? (String.ofList (lowerCase [])) = none := by decide
      simp only [nothing, noWord] at parsed
      cases parsed
    · split at parsed
      · rename_i same
        exact absurd (List.cons.inj same).1 dot
      · cases parsed

/-- **A line is a command just if it has the parts of one**, with a word that stands for the command, whatever form a
small sigma takes in it. No line has two kinds of parts, and there are fourteen words, none for two commands. -/
theorem parse?_eq_some_iff_parts :
    (∀ (isFinal : List Char → List Char → Bool) (line : String) (command : Command) (argument : Option String),
        parse? line = some (command, argument) ↔
          ∃ parts : Parts, parts.IsWellFormed ∧ parts.text = line.toList ∧
            String.ofList (lowerCaseBy isFinal [] parts.word) ∈ command.spellings ∧
            argument = parts.tail.argument?) ∧
      (∀ first second : Parts, first.IsWellFormed → second.IsWellFormed → first.text = second.text →
        first = second) ∧
      (all.flatMap spellings).Nodup ∧ (all.flatMap spellings).length = 14 := by
  refine ⟨?_, ?_, by decide, rfl⟩
  · intro isFinal line command argument
    simp only [← ofSpelling?_eq_some_iff, ofSpelling?_lowerCaseBy]
    constructor
    · intro parsed
      obtain ⟨parts, wellFormed, text⟩ := exists_parts_of_parse? parsed
      rw [← String.ofList_toList (s := line), ← text, wellFormed.parse?_text] at parsed
      obtain ⟨found, spelled, same⟩ := Option.map_eq_some_iff.mp parsed
      obtain ⟨rfl, rfl⟩ := Prod.mk.inj same
      exact ⟨parts, wellFormed, text, spelled, rfl⟩
    · rintro ⟨parts, wellFormed, text, spelled, rfl⟩
      rw [← String.ofList_toList (s := line), ← text, wellFormed.parse?_text, spelled]
      rfl
  · intro first second wellFormed wellFormed' same
    exact wellFormed.eq_of_text_eq wellFormed' same

/-- A word with a Kelvin sign, which becomes a small letter of one byte, and white space of one to three bytes. -/
theorem parse?_eq_some_iff_parts_kelvin :
    let line := "\u3000.TO\u212aENS \u0085a  B\t"
    let parts : Parts := ⟨['\u3000'], "TO\u212aENS".toList, .argued [' ', '\u0085'] "a  B".toList ['\t']⟩
    parts.IsWellFormed ∧ parts.text = line.toList ∧
      String.ofList (lowerCaseBy (fun _ _ => true) [] parts.word) ∈ tokens.spellings ∧
      parse? line = some (tokens, some "a  B") ∧
      ∀ other : Parts, other.IsWellFormed → other.text = line.toList → other = parts := by
  intro line parts
  obtain ⟨reads, determined, _⟩ := parse?_eq_some_iff_parts
  have wellFormed : parts.IsWellFormed := by
    constructor
    case indent => exact forall_mem_of_all (by decide)
    case ne_nil => decide
    case word => exact forall_mem_of_all (by decide)
    case tail =>
      refine ⟨by decide, forall_mem_of_all (by decide), ⟨by decide, ?_, ?_⟩, forall_mem_of_all (by decide)⟩
      · rintro c ⟨⟩
        rfl
      · rintro c ⟨⟩
        rfl
  have text : parts.text = line.toList := by decide
  have spelled : String.ofList (lowerCaseBy (fun _ _ => true) [] parts.word) ∈ tokens.spellings := by decide +kernel
  refine ⟨wellFormed, text, spelled, ?_, ?_⟩
  · exact (reads _ line tokens _).mpr ⟨parts, wellFormed, text, spelled, rfl⟩
  · intro other wellFormed' same
    exact determined other parts wellFormed' wellFormed (same.trans text.symm)

end Command

end LoxLexing
