import LoxLexing.Proofs.Brackets

/-!
# Words of brackets

The brackets among some tokens are a word. It is **well nested** if it is made of pairs, each with a well-nested
word inside (`WellNested`), and closing brackets may be deleted from it to make it so (`DeletesClosers`).

**The law** (`isBalanced_iff_deletesClosers`): tokens are balanced just if closing brackets can be deleted from
their word so that what is left is well nested. So the prompt never waits for a closing bracket while some way to
overlook stray ones would do without it.

The prompt decides about a closing bracket when it meets it, and lets the innermost awaited one go whenever it
can. That no other choice does better is an exchange argument: what it awaits is a part of what any other choice
awaits (`sublist_of_deletesClosers`). The other way round, its own choice deletes what stands aside
(`BracketsClosed.deletesClosers`).
-/

namespace LoxLexing

/-! ## Operators that are read -/

/-- The operator that a token of the kind is. -/
def Kind.operator? : Kind → Option Operator
  | operator op => some op
  | _ => none

theorem Kind.operator?_eq_some_iff {kind : Kind} {op : Operator} :
    kind.operator? = some op ↔ kind = operator op := by
  cases kind <;> simp [operator?]

/-- The operators among some kinds. -/
def operators (kinds : List Kind) : List Operator :=
  kinds.filterMap Kind.operator?

theorem operators_append (front behind : List Kind) :
    operators (front ++ behind) = operators front ++ operators behind :=
  List.filterMap_append

/-- The brackets that are awaited, the innermost first, after one more operator. -/
def awaitOperator (stack : List Operator) (op : Operator) : List Operator :=
  match op.closer? with
  | some closer => closer :: stack
  | none => if stack.head? = some op then stack.tail else stack

section

variable {op closer : Operator} {stack stack' : List Operator}

/-- Only operators count. -/
theorem foldl_awaitAfter (stack : List Operator) (tokens : List Token) :
    tokens.foldl awaitAfter stack = (operators (tokens.map Token.kind)).foldl awaitOperator stack := by
  rw [operators, List.filterMap_map, List.foldl_filterMap]
  congr 1
  funext stack token
  rw [awaitAfter, Function.comp_apply]
  cases token.kind <;> rfl

theorem awaitOperator_of_opens (opens : op.closer? = some closer) (stack : List Operator) :
    awaitOperator stack op = closer :: stack := by
  rw [awaitOperator, opens]

theorem awaitOperator_of_opensNothing (opensNothing : op.closer? = none) (stack : List Operator) :
    awaitOperator stack op = if stack.head? = some op then stack.tail else stack := by
  rw [awaitOperator, opensNothing]

/-- The awaited bracket is let go when it comes. -/
theorem awaitOperator_cons_self (opens : op.closer? = some closer) (stack : List Operator) :
    awaitOperator (closer :: stack) closer = stack := by
  have opensNothing := Operator.closer?_of_closer? opens
  rw [awaitOperator_of_opensNothing opensNothing, List.head?_cons, if_pos rfl, List.tail_cons]

/-! ## Awaiting less -/

theorem awaitOperator_sublist (opensNothing : op.closer? = none) (stack : List Operator) :
    (awaitOperator stack op).Sublist stack := by
  rw [awaitOperator_of_opensNothing opensNothing]
  split
  · exact List.tail_sublist stack
  · exact List.Sublist.refl stack

/-- One that awaits less goes on to await less. -/
theorem awaitOperator_mono (less : stack.Sublist stack') (op : Operator) :
    (awaitOperator stack op).Sublist (awaitOperator stack' op) := by
  cases opens : op.closer? with
  | some closer =>
    rw [awaitOperator_of_opens opens, awaitOperator_of_opens opens]
    exact less.cons_cons closer
  | none =>
    have self := awaitOperator_sublist opens stack
    by_cases closes' : stack'.head? = some op
    · obtain ⟨others', rfl⟩ := List.head?_eq_some_iff.mp closes'
      rw [awaitOperator_of_opensNothing opens (op :: others'), if_pos closes', List.tail_cons]
      -- The bracket that is let go was awaited by the other one only, or by both.
      cases less with
      | cons _ less => exact self.trans less
      | cons_cons _ less =>
        rwa [awaitOperator_of_opensNothing opens, List.head?_cons, if_pos rfl, List.tail_cons]
    · rw [awaitOperator_of_opensNothing opens stack', if_neg closes']
      exact self.trans less

end

/-! ## Words -/

namespace Operator

/-- Whether an operator is a bracket. -/
def isBracket : Operator → Bool
  | leftParen | rightParen | leftBrace | rightBrace => true
  | _ => false

/-- Whether an operator is a closing bracket. -/
def IsCloser (op : Operator) : Prop :=
  ∃ opening : Operator, opening.closer? = some op

theorem isCloser_iff {op : Operator} : op.IsCloser ↔ op = rightParen ∨ op = rightBrace := by
  constructor
  · rintro ⟨opening, closes⟩
    cases opening <;> cases closes
    · exact .inl rfl
    · exact .inr rfl
  · rintro (rfl | rfl)
    · exact ⟨leftParen, rfl⟩
    · exact ⟨leftBrace, rfl⟩

/-- A bracket opens a pair or closes one. -/
theorem isBracket_iff {op : Operator} :
    op.isBracket = true ↔ (∃ closer, op.closer? = some closer) ∨ op.IsCloser := by
  rw [isCloser_iff]
  cases op <;> simp [isBracket, closer?]

theorem closer?_of_isBracket_eq_false {op : Operator} (noBracket : op.isBracket = false) :
    op.closer? = none := by
  cases opens : op.closer? with
  | none => rfl
  | some closer =>
    rw [isBracket_iff.mpr (.inl ⟨closer, opens⟩)] at noBracket
    cases noBracket

end Operator

/-- The brackets among some tokens. -/
def brackets (tokens : List Token) : List Operator :=
  (operators (tokens.map Token.kind)).filter Operator.isBracket

/-- Whether a word of brackets is made of pairs, with such words inside and behind them. -/
inductive WellNested : List Operator → Prop where
  | nothing : WellNested []
  | pair {opening closing : Operator} {inside behind : List Operator} (closes : opening.closer? = some closing)
      (inner : WellNested inside) (later : WellNested behind) :
      WellNested (opening :: (inside ++ closing :: behind))

/-- Whether a second word is what is left of a first one when some closing brackets are deleted. -/
inductive DeletesClosers : List Operator → List Operator → Prop where
  | nothing : DeletesClosers [] []
  | keep (bracket : Operator) {word kept : List Operator} (later : DeletesClosers word kept) :
      DeletesClosers (bracket :: word) (bracket :: kept)
  | delete {closing : Operator} {word kept : List Operator} (isCloser : closing.IsCloser)
      (later : DeletesClosers word kept) : DeletesClosers (closing :: word) kept

section

variable {op : Operator} {stack stack' word word' kept kept' : List Operator} {token : Token}
  {tokens : List Token}

/-! ## No choice does better -/

/-- Over a well-nested word nothing is awaited in the end that was not awaited before. -/
theorem WellNested.foldl_awaitOperator (nested : WellNested word) (stack : List Operator) :
    word.foldl awaitOperator stack = stack := by
  induction nested generalizing stack with
  | nothing => rfl
  | pair closes _ _ ihInside ihBehind =>
    rw [List.foldl_cons, List.foldl_append, List.foldl_cons, awaitOperator_of_opens closes, ihInside,
      awaitOperator_cons_self closes, ihBehind]

/-- Whatever closing brackets are deleted, no less is awaited than over the whole word. -/
theorem sublist_of_deletesClosers (deletes : DeletesClosers (word.filter Operator.isBracket) kept)
    (less : stack.Sublist stack') :
    (word.foldl awaitOperator stack).Sublist (kept.foldl awaitOperator stack') := by
  induction word generalizing stack stack' kept with
  | nil =>
    cases deletes
    exact less
  | cons op word ih =>
    rw [List.foldl_cons]
    cases bracket : op.isBracket with
    | true =>
      rw [List.filter_cons_of_pos bracket] at deletes
      cases deletes with
      | keep _ later =>
        rw [List.foldl_cons]
        exact ih later (awaitOperator_mono less op)
      | delete isCloser later =>
        obtain ⟨opening, closes⟩ := isCloser
        have opensNothing := Operator.closer?_of_closer? closes
        exact ih later ((awaitOperator_sublist opensNothing stack).trans less)
    | false =>
      rw [List.filter_cons_of_neg (Bool.eq_false_iff.mp bracket)] at deletes
      have opensNothing := Operator.closer?_of_isBracket_eq_false bracket
      exact ih deletes ((awaitOperator_sublist opensNothing stack).trans less)

/-! ## The choice that is made -/

theorem DeletesClosers.append (first : DeletesClosers word kept) (second : DeletesClosers word' kept') :
    DeletesClosers (word ++ word') (kept ++ kept') := by
  induction first with
  | nothing => exact second
  | keep bracket _ ih => exact .keep bracket ih
  | delete isCloser _ ih => exact .delete isCloser ih

theorem brackets_cons_of_isBracket (same : token.kind = .operator op) (bracket : op.isBracket = true)
    (tokens : List Token) : brackets (token :: tokens) = op :: brackets tokens := by
  rw [brackets, operators, List.map_cons, List.filterMap_cons_some (Kind.operator?_eq_some_iff.mpr same),
    List.filter_cons_of_pos bracket]
  rfl

/-- A token that opens nothing is no bracket or a closing one. -/
theorem brackets_cons_of_opensNothing (opensNothing : token.closer? = none) (tokens : List Token) :
    brackets (token :: tokens) = brackets tokens ∨
      ∃ closing : Operator, closing.IsCloser ∧ brackets (token :: tokens) = closing :: brackets tokens := by
  cases given : token.kind.operator? with
  | none =>
    refine .inl ?_
    rw [brackets, operators, List.map_cons, List.filterMap_cons_none given]
    rfl
  | some op =>
    have same := Kind.operator?_eq_some_iff.mp given
    cases bracket : op.isBracket with
    | false =>
      refine .inl ?_
      rw [brackets, operators, List.map_cons, List.filterMap_cons_some given,
        List.filter_cons_of_neg (Bool.eq_false_iff.mp bracket)]
      rfl
    | true =>
      rcases Operator.isBracket_iff.mp bracket with ⟨closer, opens⟩ | isCloser
      · rw [closer?_eq_some_iff.mpr ⟨op, same, opens⟩] at opensNothing
        cases opensNothing
      · exact .inr ⟨op, isCloser, brackets_cons_of_isBracket same bracket tokens⟩

theorem brackets_append (front behind : List Token) :
    brackets (front ++ behind) = brackets front ++ brackets behind := by
  rw [brackets, List.map_append, operators_append, List.filter_append]
  rfl

/-- Where every opening bracket is closed, the closing ones that stand aside can be deleted. -/
theorem BracketsClosed.deletesClosers (closed : BracketsClosed tokens) :
    ∃ kept, DeletesClosers (brackets tokens) kept ∧ WellNested kept := by
  induction closed with
  | nothing => exact ⟨[], .nothing, .nothing⟩
  | @aside token tokens opensNothing _ ih =>
    obtain ⟨kept, deletes, nested⟩ := ih
    rcases brackets_cons_of_opensNothing opensNothing tokens with word | ⟨closing, isCloser, word⟩
    · exact ⟨kept, word ▸ deletes, nested⟩
    · exact ⟨kept, word ▸ .delete isCloser deletes, nested⟩
  | @pair opening closing closer inside behind opens _ closes _ ihInside ihBehind =>
    obtain ⟨op, same, opens⟩ := closer?_eq_some_iff.mp opens
    obtain ⟨inner, deletesInner, nestedInner⟩ := ihInside
    obtain ⟨later, deletesLater, nestedLater⟩ := ihBehind
    have isOpening := Operator.isBracket_iff.mpr (.inl ⟨closer, opens⟩)
    have isClosing := Operator.isBracket_iff.mpr (.inr ⟨op, opens⟩)
    refine ⟨op :: (inner ++ closer :: later), ?_, .pair opens nestedInner nestedLater⟩
    rw [brackets_cons_of_isBracket same isOpening, brackets_append,
      brackets_cons_of_isBracket closes isClosing]
    exact .keep op (deletesInner.append (.keep closer deletesLater))

end

/-! ## The law -/

theorem isBalanced_of_deletesClosers {tokens : List Token} {kept : List Operator}
    (deletes : DeletesClosers (brackets tokens) kept) (nested : WellNested kept) :
    isBalanced tokens = true := by
  have ends := sublist_of_deletesClosers deletes (List.Sublist.refl [])
  rw [nested.foldl_awaitOperator, ← foldl_awaitAfter] at ends
  exact List.isEmpty_iff.mpr (List.sublist_nil.mp ends)

/-- **Tokens are balanced just if deleting closing brackets can make their word well nested.** What is no bracket
has no influence. -/
theorem isBalanced_iff_deletesClosers (tokens : List Token) :
    (isBalanced tokens = true ↔ ∃ kept, DeletesClosers (brackets tokens) kept ∧ WellNested kept) ∧
      ∀ others, brackets others = brackets tokens → isBalanced others = isBalanced tokens := by
  have law (tokens : List Token) :
      isBalanced tokens = true ↔ ∃ kept, DeletesClosers (brackets tokens) kept ∧ WellNested kept := by
    constructor
    · intro balanced
      exact (isBalanced_iff_bracketsClosed.mp balanced).deletesClosers
    · rintro ⟨kept, deletes, nested⟩
      exact isBalanced_of_deletesClosers deletes nested
  refine ⟨law tokens, ?_⟩
  intro others same
  rw [Bool.eq_iff_iff, law, law, same]

/-- Two pairs that cross, and a parenthesis behind them: the first closing one of the two is to be deleted. -/
theorem isBalanced_iff_deletesClosers_crossed :
    let tokens := (scan "(\x7b)\x7d)").tokens
    let others := (scan "f(a, \x7b ;) \x7d // (\n)").tokens
    (∃ kept, DeletesClosers (brackets tokens) kept ∧ WellNested kept) ∧ isBalanced tokens = true ∧
      brackets others = brackets tokens ∧ isBalanced others = true := by
  intro tokens others
  have word : brackets tokens = [.leftParen, .leftBrace, .rightParen, .rightBrace, .rightParen] := by
    decide +kernel
  have same : brackets others = brackets tokens := by decide +kernel
  have deletes : DeletesClosers (brackets tokens) [.leftParen, .leftBrace, .rightBrace, .rightParen] :=
    word ▸ .keep _ (.keep _ (.delete ⟨.leftParen, rfl⟩ (.keep _ (.keep _ .nothing))))
  have inner : WellNested ([.leftBrace] ++ [.rightBrace]) := .pair rfl .nothing .nothing
  have nested : WellNested [.leftParen, .leftBrace, .rightBrace, .rightParen] :=
    .pair rfl inner .nothing
  have word' : ∃ kept, DeletesClosers (brackets tokens) kept ∧ WellNested kept := ⟨_, deletes, nested⟩
  have balanced := (isBalanced_iff_deletesClosers tokens).1.mpr word'
  have balanced' := (isBalanced_iff_deletesClosers tokens).2 others same
  exact ⟨word', balanced, same, balanced'.trans balanced⟩

end LoxLexing
