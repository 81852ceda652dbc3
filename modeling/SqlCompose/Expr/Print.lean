import SqlCompose.Expr.Build

/-!
# Writing expressions

An expression is written with the parentheses that its tree needs under the usual strengths of
SQL's operators, and no others than those the tree itself holds.

* An operand that binds looser than its operator is grouped.
* Comparisons do not chain, so that an operand of a comparison that is itself a test is grouped.
* At the same strength a left operand needs no group, since operators associate to the left; a
  right operand goes without one only when it repeats an operator for which grouping is all one.
* The operand of a negation, and those of the null, membership and range tests, are grouped unless
  they bind tighter. The candidates of a membership test stand between commas and need no group.
-/

namespace SqlCompose

/-- The side of a binary operator. -/
inductive Side where
  | left
  | right
  deriving DecidableEq, Repr

namespace Expr

/-- Whether the expression is the binary operation of an operator. -/
def repeats (op : Op) : Expr → Bool
  | binary _ op' _ => op' == op
  | _ => false

/-- Whether an operand of a binary operator is grouped. -/
def groupedUnder (op : Op) (side : Side) (e : Expr) : Bool :=
  match e.strength with
  | none => false
  | some s =>
    if s < op.strength then true
    else if op.strength < s then false
    else op.isComparison || (side == .right && !(op.isAssociative && e.repeats op))

/-- Whether the operand of a negation or test of the given strength is grouped. -/
def groupedBelow (strength : Nat) (e : Expr) : Bool :=
  match e.strength with
  | none => false
  | some s => s ≤ strength

/-- The tokens that negate a test. -/
def polarity (positive : Bool) : List Token := if positive then [] else [.keyword .NOT]

mutual

/-- The tokens of an expression. -/
def tokens : Expr → List Token
  | column c => c.tokens
  | literal v => [.bound v]
  | not e => .keyword .NOT :: Token.grouped (e.groupedBelow Op.negation) e.tokens
  | binary left op right =>
    Token.grouped (left.groupedUnder op .left) left.tokens ++ op.tokens ++
      Token.grouped (right.groupedUnder op .right) right.tokens
  | nullTest e positive =>
    Token.grouped (e.groupedBelow Op.comparison) e.tokens ++
      (.keyword .IS :: polarity positive ++ [.keyword .NULL])
  | inList e candidates positive =>
    Token.grouped (e.groupedBelow Op.comparison) e.tokens ++
      (polarity positive ++ .keyword .IN ::
        Token.grouped true (Token.commaSeparated (tokensEach candidates)))
  | between e low high positive =>
    Token.grouped (e.groupedBelow Op.comparison) e.tokens ++
      (polarity positive ++ .keyword .BETWEEN ::
        Token.grouped (low.groupedBelow Op.comparison) low.tokens) ++
      .keyword .AND :: Token.grouped (high.groupedBelow Op.comparison) high.tokens
  | parens e => Token.grouped true e.tokens

/-- The tokens of each of the expressions. -/
def tokensEach : List Expr → List (List Token)
  | [] => []
  | e :: es => e.tokens :: tokensEach es

end

theorem tokensEach_eq_map (es : List Expr) : tokensEach es = es.map tokens := by
  induction es with
  | nil => rfl
  | cons e es ih => simp [tokensEach, ih]

/-- The statement text of a bare expression. -/
def compile (ctx : Context) (e : Expr) : Except Error Compiled :=
  e.checked.map fun e => Token.render ctx e.tokens

end Expr

end SqlCompose
