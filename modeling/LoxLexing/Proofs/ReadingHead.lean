import LoxLexing.Proofs.NumberValues

/-!
# Reading with a head

A source can be read without ever being cut up: a **head** moves over it character by character and keeps count in
bytes. Its **start** is the offset at which the present segment begins, and its **current** offset is where the next
character is to be read. What is still ahead is counted a second time, for each character there carries the offset at
which it begins. Segments are found by looking at one character ahead, or two, and their texts are slices of the source
between the two offsets. A slice can be taken only if it lies in the source and between characters; where it cannot,
reading breaks off.

A reader keeps every head that it passes, so that a law about heads can be stated of all of them. A head is **aligned**
with the source if its two countings agree and its slice is what was read since its start
(`Head.IsAligned`). A reader **is at** a stage if the source is cut into what is before the start, what was taken since
then, and what is ahead (`Reader.IsAt`), and every head that it passed is aligned. Each of the functions that a reader
is made of leads from stage to stage, and the statements here say to which.
-/

namespace LoxLexing

/-! ## Heads -/

/-- The characters of a text that begins at an offset, each with the offset at which it begins itself. -/
def charOffsets (offset : Nat) : List Char → List (Nat × Char)
  | [] => []
  | c :: rest => (offset, c) :: charOffsets (offset + c.utf8Size) rest

/-- Where a source is being read. -/
structure Head where
  /-- The characters that are still to be read. -/
  ahead : List (Nat × Char)
  /-- Where the present segment begins. -/
  start : Nat
  /-- Where the next character is to be read. -/
  current : Nat
  line : Nat
  /-- What was read since the start was set. Nothing is decided by it. -/
  taken : List Char
deriving DecidableEq, Repr

/-- Something that reads a source with a head. -/
structure Reader where
  source : String
  head : Head
  /-- All heads that were passed, the present one first. -/
  passed : List Head
  reported : Array Diagnostic
deriving DecidableEq, Repr

namespace Reader

/-- A reader in front of a source. -/
def ofSource (source : String) : Reader :=
  let head : Head := ⟨charOffsets 0 source.toList, 0, 0, 1, []⟩
  ⟨source, head, [head], #[]⟩

/-! ## What a reader can do -/

/-- Moves the head. -/
def moveTo (reader : Reader) (head : Head) : Reader :=
  { reader with head, passed := head :: reader.passed }

/-- Whether the count has come to the end of the source. -/
def isAtEnd (reader : Reader) : Bool :=
  reader.source.utf8ByteSize ≤ reader.head.current

/-- Begins a segment. -/
def begin (reader : Reader) : Reader :=
  reader.moveTo { reader.head with start := reader.head.current, taken := [] }

/-- Counts a line end. -/
def countLine (reader : Reader) : Reader :=
  reader.moveTo { reader.head with line := reader.head.line + 1 }

/-- Reads one character, if there is one. -/
def advance (reader : Reader) : Option Char × Reader :=
  match reader.head.ahead with
  | [] => (none, reader)
  | (offset, c) :: ahead =>
    (some c, reader.moveTo
      { reader.head with ahead, current := offset + c.utf8Size, taken := reader.head.taken ++ [c] })

/-- The next character. -/
def peek? (reader : Reader) : Option Char :=
  reader.head.ahead.head?.map (·.2)

/-- The character behind the next one. -/
def peekNext? (reader : Reader) : Option Char :=
  reader.head.ahead.tail.head?.map (·.2)

/-- Reads the next character if it is the expected one. -/
def matchChar (expected : Char) (reader : Reader) : Bool × Reader :=
  if reader.peek? = some expected then (true, reader.advance.2) else (false, reader)

theorem length_ahead_advance {reader : Reader} {c : Char} (next : reader.peek? = some c) :
    reader.advance.2.head.ahead.length < reader.head.ahead.length := by
  unfold advance
  split
  · rename_i none
    rw [peek?, none] at next
    cases next
  · rename_i more
    rw [more]
    exact Nat.lt_succ_self _

/-- Reads characters as long as they go on. -/
def readWhile (goesOn : Char → Bool) (reader : Reader) : Reader :=
  match _h : reader.peek? with
  | none => reader
  | some c => if goesOn c then reader.advance.2.readWhile goesOn else reader
termination_by reader.head.ahead.length
decreasing_by exact length_ahead_advance _h

theorem readWhile_of_stops {goesOn : Char → Bool} {reader : Reader}
    (stops : ∀ c ∈ reader.peek?, goesOn c = false) : reader.readWhile goesOn = reader := by
  rw [readWhile]
  split
  · rfl
  · rename_i c next
    rw [stops c next, if_neg Bool.false_ne_true]

theorem readWhile_of_peek? {goesOn : Char → Bool} {reader : Reader} {c : Char} (next : reader.peek? = some c)
    (goes : goesOn c = true) : reader.readWhile goesOn = reader.advance.2.readWhile goesOn := by
  rw [readWhile]
  split
  · rename_i ended
    rw [next] at ended
    cases ended
  · rename_i c' next'
    obtain rfl : c = c' := Option.some.inj (next.symm.trans next')
    rw [if_pos goes]

/-- Reads up to the next quote, and counts the line ends on the way. -/
def readBody (reader : Reader) : Reader :=
  match _h : reader.peek? with
  | none => reader
  | some c =>
    if c = '"' then reader
    else (if c = '\n' then reader.countLine else reader).advance.2.readBody
termination_by reader.head.ahead.length
decreasing_by
  split
  · exact @length_ahead_advance reader.countLine _ _h
  · exact length_ahead_advance _h

theorem readBody_of_stops {reader : Reader} (stops : ∀ c ∈ reader.peek?, c = '"') : reader.readBody = reader := by
  rw [readBody]
  split
  · rfl
  · rename_i c next
    rw [if_pos (stops c next)]

theorem readBody_of_peek? {reader : Reader} {c : Char} (next : reader.peek? = some c) (notQuote : c ≠ '"') :
    reader.readBody = (if c = '\n' then reader.countLine else reader).advance.2.readBody := by
  rw [readBody]
  split
  · rename_i ended
    rw [next] at ended
    cases ended
  · rename_i c' next'
    obtain rfl : c = c' := Option.some.inj (next.symm.trans next')
    rw [if_neg notQuote]

/-- The part of the source between two offsets, if it can be sliced out. -/
def slice? (reader : Reader) (start stop : Nat) : Option String :=
  Span.slice? ⟨start, stop⟩ reader.source

/-- The part of the source that the present segment takes so far. -/
def lexeme? (reader : Reader) : Option String :=
  reader.slice? reader.head.start reader.head.current

/-- The token that the present segment gives. -/
def token? (kind : Kind) (literal : Option Literal) (line : Nat) (reader : Reader) : Option Token := do
  return ⟨kind, ← reader.lexeme?, literal, line, ⟨reader.head.start, reader.head.current⟩⟩

/-- Reports an error on the present line. -/
def report (error : LexicalError) (reader : Reader) : Reader :=
  { reader with reported := reader.reported.push ⟨reader.head.line, error⟩ }

/-- Gives a token without a value. -/
def give? (kind : Kind) (line : Nat) (reader : Reader) : Option (Option Token × Reader) := do
  return (some (← reader.token? kind none line), reader)

/-- Reads an operator that may have an equals sign in it, from behind its first character. -/
def readEqual (short long : Operator) (reader : Reader) : Kind × Reader :=
  let (matched, reader) := reader.matchChar '='
  (.operator (if matched then long else short), reader)

/-- Reads a string, from behind its opening quote. Its value is sliced out one byte inside its lexeme. -/
def readString? (line : Nat) (reader : Reader) : Option (Option Token × Reader) :=
  match reader.readBody.advance with
  | (none, reader) => some (none, reader.report .unterminatedString)
  | (some _, reader) => do
    guard (0 < reader.head.current)
    let value ← reader.slice? (reader.head.start + 1) (reader.head.current - 1)
    return (some (← reader.token? .string (some (.text value)) line), reader)

/-- Reads the figures of a numeral, from behind the first one. -/
def readFigures (reader : Reader) : Reader :=
  let whole := reader.readWhile Char.isDigit
  if whole.peek? = some '.' ∧ whole.peekNext?.any Char.isDigit then whole.advance.2.readWhile Char.isDigit
  else whole

/-- Reads a numeral, from behind its first digit. -/
def readNumeral? (line : Nat) (reader : Reader) : Option (Option Token × Reader) := do
  let reader := reader.readFigures
  let lexeme ← reader.lexeme?
  let value := (Binary64.ofText? lexeme.toList).getD .infinity
  return (some (← reader.token? .number (some (.number value)) line), reader)

/-- Reads a word, from behind its first character. -/
def readWord? (reader : Reader) : Option (Kind × Reader) := do
  let reader := reader.readWhile isWordPart
  return (.ofWord (← reader.lexeme?), reader)

end Reader

/-- The operators that are read at their one character, whatever follows it. -/
def Operator.alone? : Char → Option Operator
  | '(' => some leftParen
  | ')' => some rightParen
  | '{' => some leftBrace
  | '}' => some rightBrace
  | ',' => some comma
  | '.' => some dot
  | '-' => some minus
  | '+' => some plus
  | ';' => some semicolon
  | '*' => some star
  | _ => none

/-- The operators that an equals sign makes another one of, with that one. -/
def Operator.beforeEqual? : Char → Option (Operator × Operator)
  | '!' => some (bang, bangEqual)
  | '=' => some (equal, equalEqual)
  | '<' => some (less, lessEqual)
  | '>' => some (greater, greaterEqual)
  | _ => none

namespace Reader

/-- Reads a numeral or a word, from behind its first character, or reports this character. -/
def readUnmarked? (c : Char) (line : Nat) (reader : Reader) : Option (Option Token × Reader) :=
  if c.isDigit then reader.readNumeral? line
  else if isWordStart c then do
    let (kind, reader) ← reader.readWord?
    reader.give? kind line
  else some (none, reader.report (.unexpectedCharacter c))

/-- Reads a segment, from behind its first character. -/
def readBehind? (c : Char) (line : Nat) (reader : Reader) : Option (Option Token × Reader) :=
  if let some op := Operator.alone? c then reader.give? (.operator op) line
  else if let some (short, long) := Operator.beforeEqual? c then
    let (kind, reader) := reader.readEqual short long
    reader.give? kind line
  else if c = '/' then
    if reader.peek? = some '/' then some (none, reader.readWhile (· != '\n'))
    else reader.give? (.operator .slash) line
  else if c = ' ' ∨ c = '\t' ∨ c = '\r' then some (none, reader)
  else if c = '\n' then some (none, reader.countLine)
  else if c = '"' then reader.readString? line
  else reader.readUnmarked? c line

/-- Reads a segment, and gives its token if it has one. -/
def readSegment? (reader : Reader) : Option (Option Token × Reader) :=
  match reader.advance with
  | (none, moved) => some (none, moved)
  | (some c, moved) => moved.readBehind? c reader.head.line

end Reader

/-- What reading a whole source leaves. -/
structure HeadRun where
  tokens : List Token
  /-- The heads in front of each turn. -/
  turns : List Head
  /-- The reader at the end. -/
  reader : Reader
deriving DecidableEq, Repr

/-- Reads segments up to the end of the source, in turns of which there may not be more than a given number. -/
def Reader.readAll? (limit : Nat) (reader : Reader) : Option HeadRun :=
  if reader.isAtEnd then
    some ⟨[.endOfInput ⟨reader.head.current, reader.head.line⟩], [], reader⟩
  else
    match limit with
    | 0 => none
    | limit + 1 => do
      let (token, next) ← reader.begin.readSegment?
      let run ← next.readAll? limit
      return { run with tokens := token.toList ++ run.tokens, turns := reader.head :: run.turns }

/-! ## Alignment -/

/-- Whether a head is where it says in a source. -/
structure Head.IsAligned (source : String) (head : Head) : Prop where
  /-- What is ahead is the end of the source, with the offsets of the source. -/
  ahead_isSuffix : head.ahead <:+ charOffsets 0 source.toList
  /-- The current offset is that of the next character, or the end of the source where there is none. -/
  current_eq : head.current = (head.ahead.head?.map (·.1)).getD source.utf8ByteSize
  start_le : head.start ≤ head.current
  current_le : head.current ≤ source.utf8ByteSize
  isValid_start : String.Pos.Raw.IsValid source ⟨head.start⟩
  isValid_current : String.Pos.Raw.IsValid source ⟨head.current⟩
  /-- The slice between the offsets is what was read since the start was set. -/
  slice?_eq : Span.slice? ⟨head.start, head.current⟩ source = some (String.ofList head.taken)

theorem charOffsets_append (offset : Nat) (front behind : List Char) :
    charOffsets offset (front ++ behind)
      = charOffsets offset front ++ charOffsets (offset + utf8Length front) behind := by
  induction front generalizing offset with
  | nil => rfl
  | cons c front ih => rw [List.cons_append, charOffsets, charOffsets, ih, utf8Length_cons, Nat.add_assoc]; rfl

theorem length_charOffsets (offset : Nat) (text : List Char) : (charOffsets offset text).length = text.length := by
  induction text generalizing offset with
  | nil => rfl
  | cons c text ih => rw [charOffsets, List.length_cons, ih, List.length_cons]

theorem map_fst_head?_charOffsets (offset : Nat) (text : List Char) :
    (charOffsets offset text).head?.map (·.1) = text.head?.map fun _ => offset := by
  cases text <;> rfl

theorem map_snd_head?_charOffsets (offset : Nat) (text : List Char) :
    (charOffsets offset text).head?.map (·.2) = text.head? := by
  cases text <;> rfl

/-- How a source is cut where a reader is, and what the reader has counted and reported. -/
structure Stage where
  /-- What stands in front of the present segment. -/
  before : List Char
  /-- What was read of the present segment. -/
  taken : List Char
  ahead : List Char
  line : Nat
  reported : Array Diagnostic

namespace Stage

/-- All that a source is made of. -/
def text (stage : Stage) : List Char :=
  stage.before ++ (stage.taken ++ stage.ahead)

/-- The offset of the next character. -/
def offset (stage : Stage) : Nat :=
  utf8Length (stage.before ++ stage.taken)

/-- The place of the next character. -/
def position (stage : Stage) : Position :=
  ⟨stage.offset, stage.line⟩

/-- The stage at which the next segment begins. -/
def begun (stage : Stage) : Stage :=
  { stage with before := stage.before ++ stage.taken, taken := [] }

/-- The head of a reader at a stage. -/
def head (stage : Stage) : Head :=
  ⟨charOffsets stage.offset stage.ahead, utf8Length stage.before, stage.offset, stage.line, stage.taken⟩

/-- The head at a stage is aligned. -/
theorem isAligned_head {stage : Stage} {source : String} (split : source.toList = stage.text) :
    stage.head.IsAligned source := by
  have split' : source.toList = (stage.before ++ stage.taken) ++ stage.ahead := by
    rw [split, text, List.append_assoc]
  have size : source.utf8ByteSize = stage.offset + utf8Length stage.ahead := by
    rw [size_eq_utf8Length, split', utf8Length_append, offset]
  have offset_eq : stage.offset = utf8Length stage.before + utf8Length stage.taken := utf8Length_append _ _
  constructor
  case ahead_isSuffix =>
    refine ⟨charOffsets 0 (stage.before ++ stage.taken), ?_⟩
    rw [split', charOffsets_append 0 (stage.before ++ stage.taken) stage.ahead, Nat.zero_add]
    rfl
  case current_eq =>
    show stage.offset = _
    rw [head, map_fst_head?_charOffsets]
    cases more : stage.ahead with
    | nil => rw [size, more]; rfl
    | cons c rest => rfl
  case start_le =>
    show utf8Length stage.before ≤ stage.offset
    rw [offset_eq]
    exact Nat.le_add_right _ _
  case current_le => exact size ▸ Nat.le_add_right _ _
  case isValid_start => exact isValid_of_toList split
  case isValid_current => exact isValid_of_toList split'
  case slice?_eq =>
    show Span.slice? ⟨utf8Length stage.before, stage.offset⟩ source = _
    rw [offset_eq]
    exact slice?_of_toList split

end Stage

/-- Whether a reader is at a stage and has passed some heads before. It was aligned all the way. -/
structure Reader.IsAt (reader : Reader) (since : List Head) (stage : Stage) : Prop where
  split : reader.source.toList = stage.text
  head : reader.head = stage.head
  reported : reader.reported = stage.reported
  since : since <:+ reader.passed
  head_mem : reader.head ∈ reader.passed
  aligned : ∀ head ∈ reader.passed, head.IsAligned reader.source

/-! ## From stage to stage -/

namespace Reader

theorem isAt_ofSource (source : String) : (ofSource source).IsAt [] ⟨[], [], source.toList, 1, #[]⟩ := by
  have split : (ofSource source).source.toList = (⟨[], [], source.toList, 1, #[]⟩ : Stage).text := rfl
  refine ⟨split, rfl, rfl, List.nil_suffix, List.mem_cons_self, ?_⟩
  intro head mem
  rw [List.mem_singleton.mp mem]
  exact Stage.isAligned_head split

section

variable {reader : Reader} {since earlier : List Head} {stage next : Stage} {before taken body rest : List Char}
  {line : Nat} {reported : Array Diagnostic}

theorem IsAt.of_suffix (isAt : reader.IsAt since stage) (before : earlier <:+ since) : reader.IsAt earlier stage :=
  { isAt with since := before.trans isAt.since }

theorem IsAt.anew (isAt : reader.IsAt since stage) : reader.IsAt reader.passed stage :=
  { isAt with since := List.suffix_rfl }

/-- Wherever the head is moved in the same source, the reader stays aligned. -/
theorem IsAt.moveTo (isAt : reader.IsAt since stage) (same : next.text = stage.text)
    (sameReports : next.reported = stage.reported) : (reader.moveTo next.head).IsAt since next := by
  have split : reader.source.toList = next.text := isAt.split.trans same.symm
  refine ⟨split, rfl, isAt.reported.trans sameReports.symm, isAt.since.trans (List.suffix_cons _ _),
    List.mem_cons_self, ?_⟩
  intro head mem
  rcases List.mem_cons.mp mem with rfl | mem
  · exact Stage.isAligned_head split
  · exact isAt.aligned head mem

theorem IsAt.begin (isAt : reader.IsAt since stage) : reader.begin.IsAt since stage.begun := by
  have same : stage.begun.text = stage.text := List.append_assoc _ _ _
  have head : { reader.head with start := reader.head.current, taken := [] } = stage.begun.head := by
    rw [isAt.head]
    simp only [Stage.head, Stage.begun, Stage.offset, List.append_nil]
  rw [Reader.begin, head]
  exact isAt.moveTo same rfl

theorem IsAt.countLine (isAt : reader.IsAt since ⟨before, taken, rest, line, reported⟩) :
    reader.countLine.IsAt since ⟨before, taken, rest, line + 1, reported⟩ := by
  have head : { reader.head with line := reader.head.line + 1 }
      = (⟨before, taken, rest, line + 1, reported⟩ : Stage).head := by
    rw [isAt.head]
    rfl
  rw [Reader.countLine, head]
  exact isAt.moveTo rfl rfl

theorem IsAt.report (isAt : reader.IsAt since ⟨before, taken, rest, line, reported⟩) (error : LexicalError) :
    (reader.report error).IsAt since ⟨before, taken, rest, line, reported.push ⟨line, error⟩⟩ := by
  refine ⟨isAt.split, isAt.head, ?_, isAt.since, isAt.head_mem, isAt.aligned⟩
  show reader.reported.push ⟨reader.head.line, error⟩ = _
  rw [isAt.reported, isAt.head]
  rfl

theorem IsAt.peek?_eq (isAt : reader.IsAt since stage) : reader.peek? = stage.ahead.head? := by
  rw [peek?, isAt.head]
  exact map_snd_head?_charOffsets _ _

theorem IsAt.peekNext?_eq (isAt : reader.IsAt since stage) : reader.peekNext? = stage.ahead.tail.head? := by
  rw [peekNext?, isAt.head, Stage.head]
  cases stage.ahead with
  | nil => rfl
  | cons c rest => exact map_snd_head?_charOffsets _ _

theorem IsAt.advance_nil (isAt : reader.IsAt since ⟨before, taken, [], line, reported⟩) :
    reader.advance = (none, reader) := by
  rw [advance, isAt.head]
  rfl

theorem IsAt.advance_cons {c : Char} (isAt : reader.IsAt since ⟨before, taken, c :: rest, line, reported⟩) :
    reader.advance.1 = some c ∧ reader.advance.2.IsAt since ⟨before, taken ++ [c], rest, line, reported⟩ := by
  have same : (⟨before, taken ++ [c], rest, line, reported⟩ : Stage).text
      = (⟨before, taken, c :: rest, line, reported⟩ : Stage).text := by
    simp only [Stage.text, List.append_assoc, List.singleton_append]
  have moved : reader.advance
      = (some c, reader.moveTo (⟨before, taken ++ [c], rest, line, reported⟩ : Stage).head) := by
    have offset : utf8Length (before ++ (taken ++ [c])) = utf8Length (before ++ taken) + c.utf8Size := by
      rw [← List.append_assoc, utf8Length_append]
      rfl
    rw [advance, isAt.head]
    simp only [Stage.head, Stage.offset, charOffsets, offset]
  rw [moved]
  exact ⟨rfl, isAt.moveTo same rfl⟩

/-- A run of characters is read as a whole. -/
theorem IsAt.readWhile {goesOn : Char → Bool} {run : List Char} (all : ∀ c ∈ run, goesOn c = true)
    (stops : Stops goesOn rest) (isAt : reader.IsAt since ⟨before, taken, run ++ rest, line, reported⟩) :
    (reader.readWhile goesOn).IsAt since ⟨before, taken ++ run, rest, line, reported⟩ := by
  induction run generalizing reader taken with
  | nil =>
    have stops' : ∀ c ∈ reader.peek?, goesOn c = false := isAt.peek?_eq ▸ stops
    rw [readWhile_of_stops stops', List.append_nil]
    exact isAt
  | cons c run ih =>
    obtain ⟨goes, others⟩ := List.forall_mem_cons.mp all
    have next : reader.peek? = some c := isAt.peek?_eq
    have behind := ih others isAt.advance_cons.2
    rw [List.append_assoc] at behind
    rw [readWhile_of_peek? next goes]
    exact behind

/-- What stands in front of a quote is read as a whole, and its line ends are counted. -/
theorem IsAt.readBody (closed : '"' ∉ body) (stops : Stops (· != '"') rest)
    (isAt : reader.IsAt since ⟨before, taken, body ++ rest, line, reported⟩) :
    reader.readBody.IsAt since ⟨before, taken ++ body, rest, line + newlines body, reported⟩ := by
  induction body generalizing reader taken line with
  | nil =>
    have stops' : ∀ c ∈ reader.peek?, c = '"' := by
      intro c next
      exact bne_eq_false_iff_eq.mp (stops c (isAt.peek?_eq ▸ next))
    rw [readBody_of_stops stops', List.append_nil]
    exact isAt
  | cons c body ih =>
    have notQuote : c ≠ '"' := (List.ne_of_not_mem_cons closed).symm
    have closed' := List.not_mem_of_not_mem_cons closed
    have next : reader.peek? = some c := isAt.peek?_eq
    have counted : (if c = '\n' then reader.countLine else reader).IsAt since
        ⟨before, taken, c :: (body ++ rest), line + newlines [c], reported⟩ := by
      split
      · rename_i lineEnd
        subst lineEnd
        exact isAt.countLine
      · rename_i noLineEnd
        have none : newlines [c] = 0 := List.count_eq_zero.mpr (by simpa using Ne.symm noLineEnd)
        rw [none]
        exact isAt
    have behind := ih closed' counted.advance_cons.2
    rw [List.append_assoc, Nat.add_assoc, ← newlines_append] at behind
    rw [readBody_of_peek? next notQuote]
    exact behind

theorem IsAt.length_ahead (isAt : reader.IsAt since stage) : reader.head.ahead.length = stage.ahead.length := by
  rw [isAt.head]
  exact length_charOffsets _ _

/-- The count has come to the end where nothing is ahead. -/
theorem IsAt.isAtEnd_iff (isAt : reader.IsAt since stage) : reader.isAtEnd = true ↔ stage.ahead = [] := by
  have size : reader.source.utf8ByteSize = stage.offset + utf8Length stage.ahead := by
    rw [size_eq_utf8Length, isAt.split, Stage.text, ← List.append_assoc, utf8Length_append, Stage.offset]
  have current : reader.head.current = stage.offset := congrArg Head.current isAt.head
  rw [isAtEnd, decide_eq_true_iff, size, current]
  cases stage.ahead with
  | nil => exact iff_of_true (Nat.le_refl _) rfl
  | cons c rest =>
    -- A character takes a byte at least, so the count is not there before all is read.
    have wide := c.utf8Size_pos
    refine iff_of_false ?_ (List.cons_ne_nil _ _)
    rw [utf8Length_cons]
    omega

/-- What was taken can be sliced out. -/
theorem IsAt.lexeme?_eq (isAt : reader.IsAt since stage) : reader.lexeme? = some (String.ofList stage.taken) := by
  rw [lexeme?, isAt.head]
  exact (Stage.isAligned_head isAt.split).slice?_eq

end

end Reader

end LoxLexing
