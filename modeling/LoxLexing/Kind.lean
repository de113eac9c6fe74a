/-!
# Operators, keywords and kinds

The fixed vocabulary of Lox. An **operator** is one of the nineteen spellings made of punctuation, a
**keyword** one of the sixteen reserved words. Each carries its spelling and its name, and the scan
recognises it by looking the spelling up (`Operator.ofSpelling?`, `Keyword.ofSpelling?`), so that the
table is the only place where a spelling is written.

The **kind** of a token says which of these it is, or that it is a name, a literal or the end of the
input. Names of kinds are the stable upper-case words of every listing.
-/

namespace LoxLexing

/-! ## Operators -/

/-- The operators and the punctuation, those of one character first. -/
inductive Operator where
  | leftParen | rightParen | leftBrace | rightBrace
  | comma | dot | minus | plus | semicolon | slash | star
  | bang | bangEqual | equal | equalEqual | greater | greaterEqual | less | lessEqual
deriving DecidableEq, Repr

namespace Operator

/-- Every operator once. -/
def all : List Operator :=
  [leftParen, rightParen, leftBrace, rightBrace, comma, dot, minus, plus, semicolon, slash, star,
    bang, bangEqual, equal, equalEqual, greater, greaterEqual, less, lessEqual]

/-- The characters that an operator is written with. -/
def spelling : Operator → List Char
  | leftParen => ['(']
  | rightParen => [')']
  | leftBrace => ['{']
  | rightBrace => ['}']
  | comma => [',']
  | dot => ['.']
  | minus => ['-']
  | plus => ['+']
  | semicolon => [';']
  | slash => ['/']
  | star => ['*']
  | bang => ['!']
  | bangEqual => ['!', '=']
  | equal => ['=']
  | equalEqual => ['=', '=']
  | greater => ['>']
  | greaterEqual => ['>', '=']
  | less => ['<']
  | lessEqual => ['<', '=']

/-- The name of an operator in listings. -/
def name : Operator → String
  | leftParen => "LEFT_PAREN"
  | rightParen => "RIGHT_PAREN"
  | leftBrace => "LEFT_BRACE"
  | rightBrace => "RIGHT_BRACE"
  | comma => "COMMA"
  | dot => "DOT"
  | minus => "MINUS"
  | plus => "PLUS"
  | semicolon => "SEMICOLON"
  | slash => "SLASH"
  | star => "STAR"
  | bang => "BANG"
  | bangEqual => "BANG_EQUAL"
  | equal => "EQUAL"
  | equalEqual => "EQUAL_EQUAL"
  | greater => "GREATER"
  | greaterEqual => "GREATER_EQUAL"
  | less => "LESS"
  | lessEqual => "LESS_EQUAL"

/-- The operator that is written with exactly these characters. -/
def ofSpelling? (text : List Char) : Option Operator :=
  all.find? (·.spelling == text)

theorem mem_all (op : Operator) : op ∈ all := by
  cases op <;> decide

theorem ofSpelling?_spelling (op : Operator) : ofSpelling? op.spelling = some op := by
  cases op <;> decide

theorem spelling_of_ofSpelling? {text : List Char} {op : Operator}
    (found : ofSpelling? text = some op) : op.spelling = text := by
  simpa using List.find?_some found

/-- No two operators are written alike. -/
theorem ofSpelling?_eq_some_iff {text : List Char} {op : Operator} :
    ofSpelling? text = some op ↔ op.spelling = text :=
  ⟨spelling_of_ofSpelling?, fun h => h ▸ ofSpelling?_spelling op⟩

theorem spelling_ne_nil (op : Operator) : op.spelling ≠ [] := by
  cases op <;> decide

/-- The operator that closes a bracket pair which this one opens. -/
def closer? : Operator → Option Operator
  | leftParen => some rightParen
  | leftBrace => some rightBrace
  | _ => none

end Operator

/-! ## Keywords -/

/-- The reserved words. -/
inductive Keyword where
  | and | «class» | else | false | fun | for | if | nil | or | print | return | super | this | true
  | var | while
deriving DecidableEq, Repr

namespace Keyword

/-- Every keyword once, in the order in which kinds are listed. -/
def all : List Keyword :=
  [.and, .class, .else, .false, .fun, .for, .if, .nil, .or, .print, .return, .super, .this, .true,
    .var, .while]

/-- Every keyword once, in alphabetical order of the spellings: the order of completion. -/
def alphabetical : List Keyword :=
  [.and, .class, .else, .false, .for, .fun, .if, .nil, .or, .print, .return, .super, .this, .true,
    .var, .while]

/-- The reserved word itself. -/
def spelling : Keyword → String
  | .and => "and"
  | .class => "class"
  | .else => "else"
  | .false => "false"
  | .fun => "fun"
  | .for => "for"
  | .if => "if"
  | .nil => "nil"
  | .or => "or"
  | .print => "print"
  | .return => "return"
  | .super => "super"
  | .this => "this"
  | .true => "true"
  | .var => "var"
  | .while => "while"

/-- The name of a keyword in listings. -/
def name : Keyword → String
  | .and => "AND"
  | .class => "CLASS"
  | .else => "ELSE"
  | .false => "FALSE"
  | .fun => "FUN"
  | .for => "FOR"
  | .if => "IF"
  | .nil => "NIL"
  | .or => "OR"
  | .print => "PRINT"
  | .return => "RETURN"
  | .super => "SUPER"
  | .this => "THIS"
  | .true => "TRUE"
  | .var => "VAR"
  | .while => "WHILE"

/-- The keyword that a word is, if it is reserved. Case matters. -/
def ofSpelling? (word : String) : Option Keyword :=
  all.find? (·.spelling == word)

theorem mem_all (word : Keyword) : word ∈ all := by
  cases word <;> decide

theorem mem_alphabetical (word : Keyword) : word ∈ alphabetical := by
  cases word <;> decide

theorem ofSpelling?_spelling (word : Keyword) : ofSpelling? word.spelling = some word := by
  cases word <;> decide

theorem spelling_of_ofSpelling? {text : String} {word : Keyword}
    (found : ofSpelling? text = some word) : word.spelling = text := by
  simpa using List.find?_some found

/-- No two keywords are written alike. -/
theorem ofSpelling?_eq_some_iff {text : String} {word : Keyword} :
    ofSpelling? text = some word ↔ word.spelling = text :=
  ⟨spelling_of_ofSpelling?, fun h => h ▸ ofSpelling?_spelling word⟩

end Keyword

/-! ## Kinds -/

/-- What a token is. -/
inductive Kind where
  | operator (op : Operator)
  /-- A word that is not reserved. -/
  | identifier
  | string
  | number
  | keyword (word : Keyword)
  | endOfInput
deriving DecidableEq, Repr

namespace Kind

/-- Every kind once: operators, names and literals, keywords, the end. -/
def all : List Kind :=
  Operator.all.map .operator ++ [.identifier, .string, .number] ++ Keyword.all.map .keyword
    ++ [.endOfInput]

/-- The name of a kind in listings. -/
def name : Kind → String
  | operator op => op.name
  | identifier => "IDENTIFIER"
  | string => "STRING"
  | number => "NUMBER"
  | keyword word => word.name
  | endOfInput => "EOF"

/-- Whether tokens of the kind are reserved words. -/
def isKeyword : Kind → Bool
  | keyword _ => true
  | _ => false

/-- Whether tokens of the kind carry a value. -/
def isLiteral : Kind → Bool
  | string | number => true
  | _ => false

/-- The kind with a given name. -/
def ofName? (name : String) : Option Kind :=
  all.find? (·.name == name)

theorem mem_all (kind : Kind) : kind ∈ all := by
  cases kind with
  | operator op => cases op <;> decide
  | keyword word => cases word <;> decide
  | _ => decide

/-- A name belongs to one kind only. -/
theorem ofName?_name (kind : Kind) : ofName? kind.name = some kind := by
  cases kind with
  | operator op => cases op <;> decide
  | keyword word => cases word <;> decide
  | _ => decide

theorem name_injective {left right : Kind} (same : left.name = right.name) : left = right :=
  Option.some.inj (by rw [← ofName?_name left, ← ofName?_name right, same])

/-- The kind of a word: its keyword if it is reserved, else a name. -/
def ofWord (word : String) : Kind :=
  match Keyword.ofSpelling? word with
  | some reserved => keyword reserved
  | none => identifier

end Kind

end LoxLexing
