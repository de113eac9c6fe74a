import LoxLexing.Scan

/-!
# Where a segment ends

`Segment.read` decides by looking ahead. Here the same decision is stated without a reader: a segment has
a shape of its own (`IsWellFormed`) and asks something of what follows it (`EndsBefore`), which is never
more than two characters of the rest.

**The law** (`next?_eq_some_iff`): a text is read as a segment and a rest if and only if it is the
segment's text followed by the rest, the segment is well formed, and it ends before that rest. In
particular the text of a segment says which segment it is (`eq_of_text_eq`). What is said about reading
elsewhere follows from this law, by induction along the segments of a text (`next?_induction`).
-/

namespace LoxLexing

/-! ## Characters -/

/-- The characters that operators are written with. -/
def punctuation : List Char :=
  ['(', ')', '{', '}', ',', '.', '-', '+', ';', '*', '!', '=', '<', '>', '/']

/-- Whether a character has no place in Lox outside strings and comments. -/
def isForeign (c : Char) : Bool :=
  !(isBlank c || isWordPart c || c == '"' || punctuation.contains c)

/-- Whether a text is a word: a letter or underscore, and then letters, digits and underscores. -/
def IsWord (text : List Char) : Prop :=
  (∃ c ∈ text.head?, isWordStart c = true) ∧ ∀ c ∈ text, isWordPart c = true

/-- Whether a text is a run of decimal digits, of one at least. -/
def IsDigits (text : List Char) : Prop :=
  text ≠ [] ∧ ∀ c ∈ text, c.isDigit = true

/-- A decidable property is checked of each character of a list, not of all characters there are. -/
theorem forall_mem_of_all {p : Char → Prop} [DecidablePred p] {text : List Char}
    (all : text.all (fun c => decide (p c)) = true) : ∀ c ∈ text, p c := by
  simpa using all

theorem isBlank_iff {c : Char} : isBlank c = true ↔ c ∈ [' ', '\t', '\r', '\n'] := by
  simp [isBlank, or_assoc]

theorem isWordPart_of_isWordStart {c : Char} (start : isWordStart c = true) :
    isWordPart c = true := by
  simp [isWordPart, start]

theorem isWordPart_of_isDigit {c : Char} (digit : c.isDigit = true) : isWordPart c = true := by
  simp [isWordPart, digit]

theorem isAlpha_iff {c : Char} :
    c.isAlpha = true ↔ (65 ≤ c.toNat ∧ c.toNat ≤ 90) ∨ (97 ≤ c.toNat ∧ c.toNat ≤ 122) := by
  have upper : c.isUpper = true ↔ 65 ≤ c.toNat ∧ c.toNat ≤ 90 :=
    decide_eq_true_iff.trans (and_congr UInt32.le_iff_toNat_le UInt32.le_iff_toNat_le)
  have lower : c.isLower = true ↔ 97 ≤ c.toNat ∧ c.toNat ≤ 122 := by
    refine (Bool.and_eq_true _ _).to_iff.trans (and_congr ?_ ?_)
    · exact decide_eq_true_iff.trans UInt32.le_iff_toNat_le
    · exact decide_eq_true_iff.trans UInt32.le_iff_toNat_le
  have alpha : c.isAlpha = (c.isUpper || c.isLower) := rfl
  rw [alpha, Bool.or_eq_true, upper, lower]

theorem isDigit_iff {c : Char} : c.isDigit = true ↔ 48 ≤ c.toNat ∧ c.toNat ≤ 57 :=
  Char.isDigit_iff_toNat

theorem isWordStart_iff {c : Char} :
    isWordStart c = true ↔
      (65 ≤ c.toNat ∧ c.toNat ≤ 90) ∨ (97 ≤ c.toNat ∧ c.toNat ≤ 122) ∨ c.toNat = 95 := by
  have underscore : c = '_' ↔ c.toNat = 95 := (Char.toNat_inj (d := '_')).symm
  rw [isWordStart, Bool.or_eq_true, isAlpha_iff, beq_iff_eq, underscore, or_assoc]

theorem isWordStart_eq_false_of_isDigit {c : Char} (digit : c.isDigit = true) :
    isWordStart c = false := by
  rw [isDigit_iff] at digit
  rw [Bool.eq_false_iff, ne_eq, isWordStart_iff]
  omega

theorem toNat_of_isWordPart {c : Char} (part : isWordPart c = true) :
    48 ≤ c.toNat ∧ c.toNat ≤ 122 := by
  rw [isWordPart, Bool.or_eq_true, isWordStart_iff, isDigit_iff] at part
  omega

theorem isBlank_eq_false_of_isWordPart {c : Char} (part : isWordPart c = true) :
    isBlank c = false := by
  cases blank : isBlank c with
  | false => rfl
  | true =>
    have : ∀ d ∈ [' ', '\t', '\r', '\n'], isWordPart d = false :=
      forall_mem_of_all (by decide)
    rw [this c (isBlank_iff.mp blank)] at part
    cases part

theorem not_isBlank_of_mem_punctuation :
    ∀ c ∈ punctuation, isBlank c = false ∧ isWordPart c = false ∧ c ≠ '"' :=
  forall_mem_of_all (by decide)

theorem isForeign_iff {c : Char} :
    isForeign c = true ↔
      isBlank c = false ∧ isWordPart c = false ∧ c ≠ '"' ∧ c ∉ punctuation := by
  simp [isForeign, and_assoc]

theorem ne_slash_of_isForeign {c : Char} (foreign : isForeign c = true) : c ≠ '/' := by
  rintro rfl
  exact absurd foreign (by decide)

/-- What a character can begin. -/
theorem character_cases (c : Char) :
    isBlank c = true ∨ isWordStart c = true ∨ c.isDigit = true ∨ c = '"' ∨ c ∈ punctuation ∨
      isForeign c = true := by
  by_cases blank : isBlank c = true
  · exact .inl blank
  by_cases start : isWordStart c = true
  · exact .inr (.inl start)
  by_cases digit : c.isDigit = true
  · exact .inr (.inr (.inl digit))
  by_cases quote : c = '"'
  · exact .inr (.inr (.inr (.inl quote)))
  by_cases mark : c ∈ punctuation
  · exact .inr (.inr (.inr (.inr (.inl mark))))
  have part : isWordPart c = false := by
    simp only [isWordPart, Bool.or_eq_false_iff]
    exact ⟨Bool.eq_false_iff.mpr start, Bool.eq_false_iff.mpr digit⟩
  exact .inr (.inr (.inr (.inr (.inr
    (isForeign_iff.mpr ⟨Bool.eq_false_iff.mpr blank, part, quote, mark⟩)))))

theorem IsWord.exists_eq_cons {text : List Char} (word : IsWord text) :
    ∃ c rest, text = c :: rest ∧ isWordStart c = true ∧ ∀ d ∈ rest, isWordPart d = true := by
  obtain ⟨⟨c, head, start⟩, parts⟩ := word
  obtain ⟨rest, rfl⟩ := List.head?_eq_some_iff.mp head
  exact ⟨c, rest, rfl, start, fun d mem => parts d (List.mem_cons_of_mem _ mem)⟩

/-! ## Runs of characters -/

/-- Whether a run of characters with a property can end in front of a rest. -/
def Stops (p : Char → Bool) (rest : List Char) : Prop :=
  ∀ c ∈ rest.head?, p c = false

@[simp] theorem stops_nil (p : Char → Bool) : Stops p [] := by
  simp [Stops]

@[simp] theorem stops_cons {p : Char → Bool} {c : Char} {rest : List Char} :
    Stops p (c :: rest) ↔ p c = false := by
  simp [Stops]

theorem stops_newline_cons {c : Char} {rest : List Char} :
    Stops (· != '\n') (c :: rest) ↔ c = '\n' := by
  simp

theorem stops_dropWhile (p : Char → Bool) (text : List Char) : Stops p (text.dropWhile p) := by
  intro c found
  have := List.head?_dropWhile_not p text
  rw [Option.mem_def.mp found] at this
  simpa using this

theorem takeWhile_append_of_stops {p : Char → Bool} {run rest : List Char}
    (all : ∀ c ∈ run, p c = true) (stops : Stops p rest) :
    (run ++ rest).takeWhile p = run := by
  rw [List.takeWhile_append_of_pos all]
  cases rest with
  | nil => simp
  | cons c rest => simp [stops_cons.mp stops]

theorem dropWhile_append_of_stops {p : Char → Bool} {run rest : List Char}
    (all : ∀ c ∈ run, p c = true) (stops : Stops p rest) :
    (run ++ rest).dropWhile p = rest := by
  rw [List.dropWhile_append_of_pos all]
  cases rest with
  | nil => rfl
  | cons c rest => simp [stops_cons.mp stops]

/-- A text is cut at the end of a run in one way. -/
theorem append_inj_of_stops {p : Char → Bool} {run run' rest rest' : List Char}
    (all : ∀ c ∈ run, p c = true) (all' : ∀ c ∈ run', p c = true) (stops : Stops p rest)
    (stops' : Stops p rest') (same : run ++ rest = run' ++ rest') : run = run' ∧ rest = rest' := by
  have taken := takeWhile_append_of_stops all stops
  have dropped := dropWhile_append_of_stops all stops
  rw [same, takeWhile_append_of_stops all' stops'] at taken
  rw [same, dropWhile_append_of_stops all' stops'] at dropped
  exact ⟨taken.symm, dropped.symm⟩

theorem forall_mem_takeWhile (p : Char → Bool) (text : List Char) :
    ∀ c ∈ text.takeWhile p, p c = true :=
  List.all_eq_true.mp List.all_takeWhile

theorem forall_mem_bne_iff {α : Type} [BEq α] [LawfulBEq α] {stop : α} {run : List α} :
    (∀ c ∈ run, (c != stop) = true) ↔ stop ∉ run := by
  constructor
  · intro all mem
    exact bne_iff_ne.mp (all stop mem) rfl
  · rintro notMem c mem
    rw [bne_iff_ne]
    rintro rfl
    exact notMem mem

/-! ## Operators -/

namespace Operator

/-- Whether an operator and a character after it are read as something longer: an operator of two
characters, or the beginning of a comment. -/
def joins (op : Operator) (c : Char) : Bool :=
  (ofSpelling? (op.spelling ++ [c])).isSome || (op == slash && c == '/')

theorem length_spelling_le (op : Operator) : op.spelling.length ≤ 2 := by
  cases op <;> decide

/-- No operator of two characters goes on. -/
theorem joins_eq_false {op : Operator} (double : op.spelling.length = 2) (c : Char) :
    op.joins c = false := by
  have notSlash : op ≠ slash := by
    rintro rfl
    cases double
  cases found : ofSpelling? (op.spelling ++ [c]) with
  | none => simp [joins, found, notSlash]
  | some longer =>
    have short := longer.length_spelling_le
    rw [spelling_of_ofSpelling? found, List.length_append, double, List.length_singleton] at short
    omega

theorem spelling_cases (op : Operator) :
    (∃ c ∈ punctuation, op.spelling = [c]) ∨
      ∃ c ∈ punctuation, op.spelling = [c, '='] ∧ c ≠ '/' ∧ ∀ d, op.joins d = false := by
  cases op <;>
    first
    | exact .inl ⟨_, by decide, rfl⟩
    | exact .inr ⟨_, by decide, rfl, by decide, joins_eq_false rfl⟩

theorem mem_punctuation_of_mem_spelling (op : Operator) : ∀ c ∈ op.spelling, c ∈ punctuation := by
  cases op <;> exact forall_mem_of_all (by decide)

theorem eq_slash_of_mem_spelling {op : Operator} (mem : '/' ∈ op.spelling) : op = slash := by
  revert mem
  cases op <;> decide

theorem exists_ofSpelling?_singleton :
    ∀ c ∈ punctuation, ∃ op, ofSpelling? [c] = some op := by
  simp only [← Option.isSome_iff_exists]
  exact forall_mem_of_all (by decide)

theorem ofSpelling?_eq_none_of_notMem {c : Char} (absent : c ∉ punctuation) (rest : List Char) :
    ofSpelling? (c :: rest) = none := by
  cases found : ofSpelling? (c :: rest) with
  | none => rfl
  | some op =>
    have spelled := spelling_of_ofSpelling? found
    rcases op.spelling_cases with ⟨d, mark, single⟩ | ⟨d, mark, double, _⟩
    · rw [single, List.cons.injEq] at spelled
      exact absurd (spelled.1 ▸ mark) absent
    · rw [double, List.cons.injEq] at spelled
      exact absurd (spelled.1 ▸ mark) absent

end Operator

/-! ## The shape of a segment -/

/-- Whether a numeral has digits wherever the grammar asks for some. -/
def Numeral.IsWellFormed (numeral : Numeral) : Prop :=
  IsDigits numeral.whole ∧ ∀ digits ∈ numeral.fraction, IsDigits digits

/-- A numeral begins with a digit. -/
theorem Numeral.exists_text_eq_cons {numeral : Numeral} (wellFormed : numeral.IsWellFormed) :
    ∃ c rest, numeral.text = c :: rest ∧ c.isDigit = true := by
  obtain ⟨whole, fraction⟩ := numeral
  obtain ⟨⟨notEmpty, digits⟩, _⟩ := wellFormed
  obtain ⟨c, tail, rfl⟩ := List.exists_cons_of_ne_nil notEmpty
  have digit := digits c List.mem_cons_self
  cases fraction with
  | none => exact ⟨c, tail, rfl, digit⟩
  | some fraction => exact ⟨c, tail ++ '.' :: fraction, rfl, digit⟩

namespace Segment

/-- Whether a segment has the shape that its name promises, whatever stands around it. -/
def IsWellFormed : Segment → Prop
  | operator _ => True
  | word text => IsWord text
  | number numeral => numeral.IsWellFormed
  | quoted body => '"' ∉ body
  | comment body => '\n' ∉ body
  | blank c => isBlank c = true
  | stray c => isForeign c = true
  | unclosed body => '"' ∉ body

/-- Whether a segment is not cut short by ending in front of a rest. -/
def EndsBefore : Segment → List Char → Prop
  | operator op, rest => Stops op.joins rest
  | word _, rest => Stops isWordPart rest
  | number ⟨_, none⟩, rest =>
    Stops Char.isDigit rest ∧ ∀ digit tail, rest = '.' :: digit :: tail → digit.isDigit = false
  | number ⟨_, some _⟩, rest => Stops Char.isDigit rest
  | comment _, rest => Stops (· != '\n') rest
  | unclosed _, rest => rest = []
  | quoted _, _ | blank _, _ | stray _, _ => True

/-- At the end of a source no segment is cut short. -/
theorem endsBefore_nil (segment : Segment) : segment.EndsBefore [] := by
  cases segment with
  | number numeral =>
    obtain ⟨whole, fraction⟩ := numeral
    cases fraction <;> simp [EndsBefore]
  | _ => simp [EndsBefore]

/-! ## Reading by the first character -/

theorem read_of_isBlank {c : Char} (blank : isBlank c = true) (rest : List Char) :
    read c rest = (.blank c, rest) := by
  rw [read, if_pos blank]

theorem read_of_isWordStart {c : Char} (start : isWordStart c = true) (rest : List Char) :
    read c rest = (word (c :: rest.takeWhile isWordPart), rest.dropWhile isWordPart) := by
  have notBlank := isBlank_eq_false_of_isWordPart (isWordPart_of_isWordStart start)
  rw [read, if_neg (by simp [notBlank]), if_pos start]

theorem read_of_isDigit {c : Char} (digit : c.isDigit = true) (rest : List Char) :
    read c rest = readNumeral (c :: rest) := by
  have notBlank := isBlank_eq_false_of_isWordPart (isWordPart_of_isDigit digit)
  have notStart := isWordStart_eq_false_of_isDigit digit
  rw [read, if_neg (by simp [notBlank]), if_neg (by simp [notStart]), if_pos digit]

theorem read_quote (rest : List Char) : read '"' rest = readString rest := rfl

theorem read_slashes (rest : List Char) :
    read '/' ('/' :: rest)
      = (comment (rest.takeWhile (· != '\n')), rest.dropWhile (· != '\n')) := rfl

/-- A character that begins neither a blank, a word, a numeral, a string nor a comment is left to the
operators. -/
theorem read_eq_readOperator {c : Char} {rest : List Char} (notBlank : isBlank c = false)
    (notPart : isWordPart c = false) (notQuote : c ≠ '"') (notComment : c = '/' → rest.head? ≠ some '/') :
    read c rest = readOperator c rest := by
  simp only [isWordPart, Bool.or_eq_false_iff] at notPart
  rw [read, if_neg (by simp [notBlank]), if_neg (by simp [notPart.1]),
    if_neg (by simp [notPart.2]), if_neg notQuote, if_neg fun slashes => notComment slashes.1 slashes.2]

/-- A punctuation mark begins a comment, or is left to the operators. -/
theorem read_of_mem_punctuation {c : Char} (mark : c ∈ punctuation) (rest : List Char) :
    (c = '/' ∧ ∃ tail, rest = '/' :: tail) ∨
      ((c = '/' → rest.head? ≠ some '/') ∧ read c rest = readOperator c rest) := by
  obtain ⟨notBlank, notPart, notQuote⟩ := not_isBlank_of_mem_punctuation c mark
  by_cases comments : c = '/' ∧ rest.head? = some '/'
  · exact .inl ⟨comments.1, List.head?_eq_some_iff.mp comments.2⟩
  · have notComment : c = '/' → rest.head? ≠ some '/' := by
      intro slash second
      exact comments ⟨slash, second⟩
    exact .inr ⟨notComment, read_eq_readOperator notBlank notPart notQuote notComment⟩

theorem read_of_isForeign {c : Char} (foreign : isForeign c = true) (rest : List Char) :
    read c rest = (stray c, rest) := by
  obtain ⟨notBlank, notPart, notQuote, notMark⟩ := isForeign_iff.mp foreign
  rw [read_eq_readOperator notBlank notPart notQuote fun slash => absurd slash (ne_slash_of_isForeign foreign)]
  simp [readOperator, Operator.ofSpelling?_eq_none_of_notMem notMark]

/-! ## What is read is well formed, and ends where it should -/

theorem readNumeral_sound {c : Char} {rest : List Char} (digit : c.isDigit = true) :
    (readNumeral (c :: rest)).1.IsWellFormed ∧
      (readNumeral (c :: rest)).1.EndsBefore (readNumeral (c :: rest)).2 := by
  have whole : IsDigits ((c :: rest).takeWhile Char.isDigit) :=
    ⟨by simp [digit], forall_mem_takeWhile _ _⟩
  have stops := stops_dropWhile Char.isDigit (c :: rest)
  unfold readNumeral
  split
  · rename_i first tail found
    by_cases follows : first.isDigit = true
    · have fraction : IsDigits ((first :: tail).takeWhile Char.isDigit) :=
        ⟨by simp [follows], forall_mem_takeWhile _ _⟩
      rw [if_pos follows]
      refine ⟨⟨whole, ?_⟩, stops_dropWhile _ _⟩
      rintro digits ⟨⟩
      exact fraction
    · rw [if_neg follows]
      refine ⟨⟨whole, by simp⟩, by simp, ?_⟩
      rintro digit' tail' ⟨⟩
      exact Bool.eq_false_iff.mpr follows
  · rename_i noPoint
    refine ⟨⟨whole, by simp⟩, stops, ?_⟩
    intro digit' tail' found
    exact absurd found (noPoint digit' tail')

theorem readString_sound (input : List Char) :
    (readString input).1.IsWellFormed ∧ (readString input).1.EndsBefore (readString input).2 := by
  have open' : '"' ∉ input.takeWhile (· != '"') := forall_mem_bne_iff.mp (forall_mem_takeWhile _ _)
  unfold readString
  split
  · exact ⟨open', rfl⟩
  · exact ⟨open', trivial⟩

theorem readOperator_sound {c : Char} {rest : List Char} (mark : c ∈ punctuation)
    (notComment : c = '/' → rest.head? ≠ some '/') :
    (readOperator c rest).1.IsWellFormed ∧
      (readOperator c rest).1.EndsBefore (readOperator c rest).2 := by
  unfold readOperator
  split
  · rename_i op found
    refine ⟨trivial, ?_⟩
    have spelled := Operator.spelling_of_ofSpelling? found
    rcases op.spelling_cases with ⟨d, _, single⟩ | ⟨d, _, _, _, never⟩
    · cases rest with
      | nil => simp [EndsBefore]
      | cons next rest => simp [single] at spelled
    · intro next _
      exact never next
  · rename_i noDouble
    obtain ⟨op, found⟩ := Operator.exists_ofSpelling?_singleton c mark
    have spelled := Operator.spelling_of_ofSpelling? found
    rw [found]
    refine ⟨trivial, ?_⟩
    cases rest with
    | nil => exact stops_nil _
    | cons next rest =>
      have noSlashes : ¬ (op = .slash ∧ next = '/') := by
        rintro ⟨rfl, rfl⟩
        exact notComment (by simpa [Operator.spelling] using spelled.symm) rfl
      have noDouble' : Operator.ofSpelling? (op.spelling ++ [next]) = none := by
        simpa [spelled] using noDouble
      simpa [EndsBefore, Operator.joins, noDouble'] using noSlashes

theorem read_sound (c : Char) (rest : List Char) :
    (read c rest).1.IsWellFormed ∧ (read c rest).1.EndsBefore (read c rest).2 := by
  rcases character_cases c with blank | start | digit | rfl | mark | foreign
  · rw [read_of_isBlank blank]
    exact ⟨blank, trivial⟩
  · rw [read_of_isWordStart start]
    refine ⟨⟨⟨c, rfl, start⟩, ?_⟩, stops_dropWhile _ _⟩
    intro d mem
    rcases List.mem_cons.mp mem with rfl | mem
    · exact isWordPart_of_isWordStart start
    · exact forall_mem_takeWhile _ _ d mem
  · rw [read_of_isDigit digit]
    exact readNumeral_sound digit
  · rw [read_quote]
    exact readString_sound rest
  · rcases read_of_mem_punctuation mark rest with ⟨rfl, tail, rfl⟩ | ⟨notComment, reads⟩
    · rw [read_slashes]
      exact ⟨forall_mem_bne_iff.mp (forall_mem_takeWhile _ _), stops_dropWhile _ _⟩
    · rw [reads]
      exact readOperator_sound mark notComment
  · rw [read_of_isForeign foreign]
    exact ⟨foreign, trivial⟩

/-! ## A well-formed segment that ends in the right place is read -/

theorem readNumeral_point {whole rest : List Char} {first : Char}
    (digits : ∀ c ∈ whole, c.isDigit = true) (digit : first.isDigit = true) :
    readNumeral (whole ++ '.' :: first :: rest)
      = (number ⟨whole, some ((first :: rest).takeWhile Char.isDigit)⟩,
          (first :: rest).dropWhile Char.isDigit) := by
  have stops : Stops Char.isDigit ('.' :: first :: rest) := by simp
  simp only [readNumeral, takeWhile_append_of_stops digits stops,
    dropWhile_append_of_stops digits stops, if_pos digit]

theorem readNumeral_append {numeral : Numeral} {rest : List Char}
    (wellFormed : numeral.IsWellFormed) (ends : (number numeral).EndsBefore rest) :
    readNumeral (numeral.text ++ rest) = (number numeral, rest) := by
  obtain ⟨whole, fraction⟩ := numeral
  obtain ⟨⟨_, digits⟩, behind⟩ := wellFormed
  cases fraction with
  | none =>
    obtain ⟨stops, noDigit⟩ := ends
    simp only [Numeral.text, readNumeral, takeWhile_append_of_stops digits stops,
      dropWhile_append_of_stops digits stops]
    split
    · rename_i digit tail
      rw [if_neg (by simp [noDigit digit tail rfl])]
    · rfl
  | some fraction =>
    obtain ⟨notEmpty, digits'⟩ := behind fraction rfl
    obtain ⟨first, tail, rfl⟩ := List.exists_cons_of_ne_nil notEmpty
    have taken := takeWhile_append_of_stops digits' ends
    have dropped := dropWhile_append_of_stops digits' ends
    rw [List.cons_append] at taken dropped
    simp only [Numeral.text, List.append_assoc, List.cons_append,
      readNumeral_point digits (digits' first List.mem_cons_self), taken, dropped]

theorem readString_append_quote {body : List Char} (closed : '"' ∉ body) (rest : List Char) :
    readString (body ++ '"' :: rest) = (quoted body, rest) := by
  have run := forall_mem_bne_iff.mpr closed
  have stops : Stops (· != '"') ('"' :: rest) := by simp
  simp only [readString, takeWhile_append_of_stops run stops, dropWhile_append_of_stops run stops]

theorem readString_of_notMem {body : List Char} (unclosed' : '"' ∉ body) :
    readString body = (unclosed body, []) := by
  have run := forall_mem_bne_iff.mpr unclosed'
  have taken := takeWhile_append_of_stops run (stops_nil _)
  have dropped := dropWhile_append_of_stops run (stops_nil _)
  rw [List.append_nil] at taken dropped
  simp only [readString, taken, dropped]

theorem readOperator_append {op : Operator} {c : Char} {text rest : List Char}
    (spelled : op.spelling = c :: text) (ends : (operator op).EndsBefore rest) :
    readOperator c (text ++ rest) = (operator op, rest) := by
  have found := Operator.ofSpelling?_spelling op
  rcases op.spelling_cases with ⟨d, _, single⟩ | ⟨d, _, double, _⟩
  · obtain ⟨rfl, rfl⟩ := List.cons.inj (single.symm.trans spelled)
    rw [single] at found
    cases rest with
    | nil => simp [readOperator, found]
    | cons next rest =>
      have noDouble : Operator.ofSpelling? [d, next] = none := by
        have apart : op.joins next = false := stops_cons.mp ends
        simp only [Operator.joins, Bool.or_eq_false_iff, Option.isSome_eq_false_iff,
          Option.isNone_iff_eq_none] at apart
        simpa [single] using apart.1
      simp [readOperator, noDouble, found]
  · obtain ⟨rfl, rfl⟩ := List.cons.inj (double.symm.trans spelled)
    rw [double] at found
    simp [readOperator, found]

theorem next?_of_operator {op : Operator} {rest : List Char} (ends : (operator op).EndsBefore rest) :
    next? (op.spelling ++ rest) = some (operator op, rest) := by
  obtain ⟨c, tail, spelled⟩ := List.exists_cons_of_ne_nil op.spelling_ne_nil
  have mem : c ∈ op.spelling := spelled ▸ List.mem_cons_self
  have mark := op.mem_punctuation_of_mem_spelling c mem
  rw [spelled, List.cons_append, next?]
  rcases read_of_mem_punctuation mark (tail ++ rest) with ⟨rfl, tail', second⟩ | ⟨_, reads⟩
  · obtain rfl := Operator.eq_slash_of_mem_spelling mem
    obtain rfl : [] = tail := (List.cons.inj spelled).2
    rw [List.nil_append] at second
    subst second
    cases stops_cons.mp ends
  · rw [reads, readOperator_append spelled ends]

theorem next?_of_endsBefore {segment : Segment} {rest : List Char}
    (wellFormed : segment.IsWellFormed) (ends : segment.EndsBefore rest) :
    next? (segment.text ++ rest) = some (segment, rest) := by
  cases segment with
  | operator op => exact next?_of_operator ends
  | word word =>
    obtain ⟨c, tail, rfl, start, parts⟩ := IsWord.exists_eq_cons wellFormed
    rw [text, List.cons_append, next?, read_of_isWordStart start,
      takeWhile_append_of_stops parts ends, dropWhile_append_of_stops parts ends]
  | number numeral =>
    obtain ⟨c, tail, spelled, digit⟩ := Numeral.exists_text_eq_cons wellFormed
    have reads := readNumeral_append wellFormed ends
    rw [spelled, List.cons_append] at reads
    rw [text, spelled, List.cons_append, next?, read_of_isDigit digit, reads]
  | quoted body =>
    have reads := readString_append_quote wellFormed rest
    simp only [text, List.cons_append, List.append_assoc, List.nil_append, next?, read_quote, reads]
  | comment body =>
    have run := forall_mem_bne_iff.mpr wellFormed
    simp only [text, List.cons_append, next?, read_slashes, takeWhile_append_of_stops run ends,
      dropWhile_append_of_stops run ends]
  | blank c => rw [text, List.cons_append, List.nil_append, next?, read_of_isBlank wellFormed]
  | stray c => rw [text, List.cons_append, List.nil_append, next?, read_of_isForeign wellFormed]
  | unclosed body =>
    obtain rfl : rest = [] := ends
    rw [text, List.append_nil, next?, read_quote, readString_of_notMem wellFormed]

/-- **When a text is read as a segment and a rest.** -/
theorem next?_eq_some_iff {input rest : List Char} {segment : Segment} :
    next? input = some (segment, rest) ↔
      segment.IsWellFormed ∧ segment.EndsBefore rest ∧ segment.text ++ rest = input := by
  constructor
  · intro found
    cases input with
    | nil => cases found
    | cons c tail =>
      have sound := read_sound c tail
      rw [Option.some.inj found] at sound
      exact ⟨sound.1, sound.2, text_append_of_next? found⟩
  · rintro ⟨wellFormed, ends, rfl⟩
    exact next?_of_endsBefore wellFormed ends

/-- Something can be read of every text that is not at its end. -/
theorem exists_next?_cons (c : Char) (rest : List Char) :
    ∃ segment rest', next? (c :: rest) = some (segment, rest') :=
  ⟨_, _, rfl⟩

/-- The text of a segment says which segment it is. -/
theorem eq_of_text_eq {left right : Segment} (leftFormed : left.IsWellFormed)
    (rightFormed : right.IsWellFormed) (same : left.text = right.text) : left = right := by
  have leftRead := next?_of_endsBefore leftFormed (endsBefore_nil left)
  rw [same, next?_of_endsBefore rightFormed (endsBefore_nil right)] at leftRead
  exact (Prod.mk.inj (Option.some.inj leftRead)).1.symm

/-- Induction along the segments of a text. -/
theorem next?_induction {motive : List Char → Prop} (ended : motive [])
    (step : ∀ {segment : Segment} {rest : List Char},
      next? (segment.text ++ rest) = some (segment, rest) → segment.IsWellFormed →
        segment.EndsBefore rest → motive rest → motive (segment.text ++ rest))
    (input : List Char) : motive input := by
  match found : next? input with
  | none => exact next?_eq_none_iff.mp found ▸ ended
  | some (segment, rest) =>
    have shorter := length_lt_of_next? found
    obtain ⟨wellFormed, ends, rfl⟩ := next?_eq_some_iff.mp found
    exact step found wellFormed ends (next?_induction ended step rest)
termination_by input.length

/-- The same with the open string apart, which is the last segment if there is one. -/
theorem next?_induction_unclosed {motive : List Char → Prop} (ended : motive [])
    (unclosed : ∀ {body : List Char}, '"' ∉ body →
      next? ('"' :: body) = some (.unclosed body, []) → motive ('"' :: body))
    (closed : ∀ {segment : Segment} {rest : List Char},
      next? (segment.text ++ rest) = some (segment, rest) → segment.IsWellFormed →
        segment.EndsBefore rest → (∀ body, segment ≠ .unclosed body) → motive rest →
        motive (segment.text ++ rest))
    (input : List Char) : motive input := by
  induction input using next?_induction with
  | ended => exact ended
  | @step segment rest found wellFormed ends ih =>
    by_cases last : ∃ body, segment = .unclosed body
    · obtain ⟨body, rfl⟩ := last
      obtain rfl : rest = [] := ends
      rw [List.append_nil] at found ⊢
      exact unclosed wellFormed found
    · exact closed found wellFormed ends (fun body same => last ⟨body, same⟩) ih

end Segment

end LoxLexing
