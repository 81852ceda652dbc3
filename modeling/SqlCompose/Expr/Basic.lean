import SqlCompose.Error
import SqlCompose.Sql.Token

/-!
# Expressions

Every predicate, computed value and column reference of a query is an expression. The children of
a node are expressions again, and plain values stand in them as literals.

## Main definitions

* `Column`: a column as a statement addresses it, and the field it is read into.
* `Op`, `Op.strength`: binary operators and how tightly they bind.
* `Expr`, `Expr.strength`: expressions and how tightly their outermost operator binds.
* `Expr.hasEmptyIn`: whether some membership test has no candidate.
-/

namespace SqlCompose

/-- A column reference: `table` is the identifier that the statement knows the table by, `column`
the column's own name, and `field` the field that its cells are assigned to. -/
structure Column where
  table : String
  column : String
  field : String
  deriving DecidableEq, Repr

/-- The tokens of a column reference. -/
def Column.tokens (c : Column) : List Token := [.name c.table, .dot, .name c.column]

/-- The binary operators. -/
inductive Op where
  | eq
  | notEq
  | gt
  | gte
  | lt
  | lte
  | add
  | subtract
  | multiply
  | divide
  | like
  | notLike
  | and
  | or
  deriving DecidableEq, Repr

namespace Op

/-- The operators in the order of their declaration. -/
def all : List Op :=
  [eq, notEq, gt, gte, lt, lte, add, subtract, multiply, divide, like, notLike, and, or]

/-- The tokens that an operator is written with. -/
def tokens : Op → List Token
  | eq => [.sign .equal]
  | notEq => [.sign .notEqual]
  | gt => [.sign .greater]
  | gte => [.sign .greaterEqual]
  | lt => [.sign .less]
  | lte => [.sign .lessEqual]
  | add => [.sign .plus]
  | subtract => [.sign .minus]
  | multiply => [.sign .star]
  | divide => [.sign .slash]
  | like => [.keyword .LIKE]
  | notLike => [.keyword .NOT, .keyword .LIKE]
  | and => [.keyword .AND]
  | or => [.keyword .OR]

/-- The spelling of an operator. -/
def symbol (op : Op) : String := Token.textOf default op.tokens

/-- How tightly comparisons and the other tests bind. -/
def comparison : Nat := 4

/-- How tightly the logical negation binds: looser than tests and tighter than `AND`. -/
def negation : Nat := 3

/-- How tightly an operator binds; a greater number binds tighter. -/
def strength : Op → Nat
  | or => 1
  | and => 2
  | eq | notEq | gt | gte | lt | lte | like | notLike => comparison
  | add | subtract => 5
  | multiply | divide => 6

/-- Whether `a op (b op c)` may be written as `a op b op c`. -/
def isAssociative : Op → Bool
  | and | or | add | multiply => true
  | _ => false

/-- Whether the operator is a comparison. Comparisons do not chain. -/
def isComparison (op : Op) : Bool := op.strength == comparison

end Op

/-- Expressions. In `nullTest`, `inList` and `between` the flag is false for the negated test. -/
inductive Expr where
  | column (c : Column)
  | literal (v : Value)
  | not (e : Expr)
  | binary (left : Expr) (op : Op) (right : Expr)
  | nullTest (e : Expr) (positive : Bool)
  | inList (e : Expr) (candidates : List Expr) (positive : Bool)
  | between (e low high : Expr) (positive : Bool)
  | parens (e : Expr)
  deriving Repr

namespace Expr

/-- How tightly the outermost operator binds; columns, literals and groups have none. -/
def strength : Expr → Option Nat
  | column _ | literal _ | parens _ => none
  | not _ => some Op.negation
  | binary _ op _ => some op.strength
  | nullTest _ _ | inList _ _ _ | between _ _ _ _ => some Op.comparison

/-- The column that the expression is, if it is one. -/
def column? : Expr → Option Column
  | column c => some c
  | _ => none

mutual

/-- Whether a membership test without a candidate occurs in the expression. -/
def hasEmptyIn : Expr → Bool
  | column _ | literal _ => false
  | not e | nullTest e _ | parens e => e.hasEmptyIn
  | binary left _ right => left.hasEmptyIn || right.hasEmptyIn
  | inList e candidates _ => candidates.isEmpty || e.hasEmptyIn || anyEmptyIn candidates
  | between e low high _ => e.hasEmptyIn || low.hasEmptyIn || high.hasEmptyIn

/-- Whether a membership test without a candidate occurs in one of the expressions. -/
def anyEmptyIn : List Expr → Bool
  | [] => false
  | e :: es => e.hasEmptyIn || anyEmptyIn es

end

theorem anyEmptyIn_eq_any (es : List Expr) : anyEmptyIn es = es.any hasEmptyIn := by
  induction es with
  | nil => rfl
  | cons e es ih => simp [anyEmptyIn, ih]

/-- The expression, if every membership test in it has a candidate. -/
def checked (e : Expr) : Except Error Expr :=
  if e.hasEmptyIn then .error .emptyInList else .ok e

end Expr

end SqlCompose
