import Mathlib.Data.List.Infix
import LoxLexing.Prompt.Continuation

/-!
# Brackets

Among tokens every opening bracket is closed if it has a closing bracket of its own, behind it, and the same is
so of the tokens in between (`BracketsClosed`). A closing bracket that no opening one needs stands aside.

**The law** (`isBalanced_iff_bracketsClosed`): the prompt, which keeps the brackets that it awaits and lets go of
the innermost one only, finds that none is awaited just if every opening bracket is closed.

In one direction, tokens behind which nothing is awaited are taken apart by what is awaited in front of them
(`Closes`). In the other, tokens with all brackets closed may let go of brackets from before, but never add to
them.
-/

namespace LoxLexing

/-- What closes a bracket pair opens none. -/
theorem Operator.closer?_of_closer? {op closer : Operator} (opens : op.closer? = some closer) :
    closer.closer? = none := by
  cases op <;> cases opens <;> rfl

/-- The bracket that closes what a token opens. -/
def Token.closer? (token : Token) : Option Operator :=
  match token.kind with
  | .operator op => op.closer?
  | _ => none

/-- Whether every opening bracket among some tokens has a closing bracket of its own, with the same in
between. -/
inductive BracketsClosed : List Token → Prop where
  | nothing : BracketsClosed []
  | aside {token : Token} {tokens : List Token} (opensNothing : token.closer? = none)
      (later : BracketsClosed tokens) : BracketsClosed (token :: tokens)
  | pair {opening closing : Token} {closer : Operator} {inside behind : List Token}
      (opens : opening.closer? = some closer) (inner : BracketsClosed inside)
      (closes : closing.kind = .operator closer) (later : BracketsClosed behind) :
      BracketsClosed (opening :: (inside ++ closing :: behind))

section

variable {token opening closing : Token} {tokens : List Token} {closer : Operator}
  {stack stack' : List Operator}

/-! ## One token -/

/-- What opens a bracket pair is an operator. -/
theorem closer?_eq_some_iff : token.closer? = some closer ↔
    ∃ op : Operator, token.kind = .operator op ∧ op.closer? = some closer := by
  rw [Token.closer?]
  cases token.kind with
  | operator op =>
    constructor
    · intro opens
      exact ⟨op, rfl, opens⟩
    · rintro ⟨_, same, opens⟩
      cases same
      exact opens
  | _ => simp

theorem awaitAfter_of_opens (opens : token.closer? = some closer) (stack : List Operator) :
    awaitAfter stack token = closer :: stack := by
  obtain ⟨op, same, opens⟩ := closer?_eq_some_iff.mp opens
  simp only [awaitAfter, same, opens]

theorem awaitAfter_of_closes (closes : token.kind = .operator closer)
    (opensNothing : token.closer? = none) (stack : List Operator) :
    awaitAfter stack token = if stack.head? = some closer then stack.tail else stack := by
  have opensNothing' : closer.closer? = none := by
    rwa [Token.closer?, closes] at opensNothing
  simp only [awaitAfter, closes, opensNothing']

/-- A token that opens nothing closes the innermost bracket or stands aside. -/
theorem awaitAfter_cases (opensNothing : token.closer? = none) (stack : List Operator) :
    (∃ closer rest, token.kind = .operator closer ∧ stack = closer :: rest ∧
        awaitAfter stack token = rest) ∨
      awaitAfter stack token = stack := by
  cases same : token.kind with
  | operator op =>
    rw [awaitAfter_of_closes same opensNothing]
    cases stack with
    | nil => exact .inr rfl
    | cons closer rest =>
      by_cases closes : closer = op
      · subst closes
        exact .inl ⟨closer, rest, rfl, rfl, if_pos rfl⟩
      · exact .inr (if_neg fun head => closes (Option.some.inj head))
  | _ =>
    refine .inr ?_
    simp only [awaitAfter, same]

/-! ## What is awaited is closed -/

/-- Tokens that close the awaited brackets one after another, the innermost first, with all brackets closed
before, between and behind. -/
inductive Closes : List Operator → List Token → Prop where
  | rest {tokens : List Token} (closed : BracketsClosed tokens) : Closes [] tokens
  | next {closer : Operator} {stack : List Operator} {closing : Token} {inside behind : List Token}
      (inner : BracketsClosed inside) (closes : closing.kind = .operator closer)
      (later : Closes stack behind) : Closes (closer :: stack) (inside ++ closing :: behind)

theorem Closes.aside (opensNothing : token.closer? = none) (closed : Closes stack tokens) :
    Closes stack (token :: tokens) := by
  cases closed with
  | rest closed => exact .rest (.aside opensNothing closed)
  | next inner closes later => exact .next (.aside opensNothing inner) closes later

theorem Closes.pair (opens : opening.closer? = some closer) (closed : Closes (closer :: stack) tokens) :
    Closes stack (opening :: tokens) := by
  cases closed with
  | next inner closes later =>
    cases later with
    | rest later => exact .rest (.pair opens inner closes later)
    | next inner' closes' later' =>
      have := Closes.next (.pair opens inner closes inner') closes' later'
      rwa [List.cons_append, List.append_assoc, List.cons_append] at this

/-- Where nothing is awaited any more, all that was awaited has been closed. -/
theorem closes_of_foldl (ends : tokens.foldl awaitAfter stack = []) : Closes stack tokens := by
  induction tokens generalizing stack with
  | nil =>
    obtain rfl : stack = [] := ends
    exact .rest .nothing
  | cons token tokens ih =>
    rw [List.foldl_cons] at ends
    cases opens : token.closer? with
    | some closer =>
      rw [awaitAfter_of_opens opens] at ends
      exact .pair opens (ih ends)
    | none =>
      rcases awaitAfter_cases opens stack with ⟨closer, rest, closes, rfl, after⟩ | after
      · rw [after] at ends
        exact .next .nothing closes (ih ends)
      · rw [after] at ends
        exact .aside opens (ih ends)

/-! ## Closed brackets add nothing -/

theorem closer?_of_closes (opens : opening.closer? = some closer)
    (closes : closing.kind = .operator closer) : closing.closer? = none := by
  obtain ⟨op, -, opens⟩ := closer?_eq_some_iff.mp opens
  rw [Token.closer?, closes]
  exact Operator.closer?_of_closer? opens

theorem awaitAfter_suffix (opensNothing : token.closer? = none) (stack : List Operator) :
    awaitAfter stack token <:+ stack := by
  rcases awaitAfter_cases opensNothing stack with ⟨closer, rest, -, rfl, after⟩ | after
  · rw [after]
    exact List.suffix_cons closer rest
  · rw [after]

/-- Behind a closing bracket no more is awaited than in front of the opening one. -/
theorem awaitAfter_suffix_of_closes (closes : closing.kind = .operator closer)
    (opensNothing : closing.closer? = none) (suffix : stack' <:+ closer :: stack) :
    awaitAfter stack' closing <:+ stack := by
  rcases List.suffix_cons_iff.mp suffix with rfl | suffix
  · rw [awaitAfter_of_closes closes opensNothing, List.head?_cons, if_pos rfl, List.tail_cons]
  · exact (awaitAfter_suffix opensNothing stack').trans suffix

/-- Tokens with all brackets closed await nothing new. -/
theorem BracketsClosed.foldl_suffix (closed : BracketsClosed tokens) (stack : List Operator) :
    tokens.foldl awaitAfter stack <:+ stack := by
  induction closed generalizing stack with
  | nothing => exact List.suffix_rfl
  | aside opensNothing _ ih =>
    rw [List.foldl_cons]
    exact (ih _).trans (awaitAfter_suffix opensNothing stack)
  | @pair opening closing closer inside behind opens _ closes _ ihInside ihBehind =>
    rw [List.foldl_cons, List.foldl_append, List.foldl_cons, awaitAfter_of_opens opens]
    have opensNothing := closer?_of_closes opens closes
    exact (ihBehind _).trans
      (awaitAfter_suffix_of_closes closes opensNothing (ihInside (closer :: stack)))

/-- **Brackets are balanced if every opening one is closed**, and only then. -/
theorem isBalanced_iff_bracketsClosed : isBalanced tokens = true ↔ BracketsClosed tokens := by
  rw [isBalanced, awaited, List.isEmpty_iff]
  constructor
  · intro ends
    cases closes_of_foldl ends with
    | rest closed => exact closed
  · intro closed
    exact List.suffix_nil.mp (closed.foldl_suffix [])

end

end LoxLexing
