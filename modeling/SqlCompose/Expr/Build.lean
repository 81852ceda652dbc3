import SqlCompose.Expr.Basic

/-!
# Building expressions

One function for each form of expression. Negations and disjunctions come with the parentheses
that let them stand inside anything.
-/

namespace SqlCompose.Expr

/-- Equality. -/
def eq (left right : Expr) : Expr := .binary left .eq right

/-- Inequality. -/
def ne (left right : Expr) : Expr := .binary left .notEq right

/-- The test for a greater left side. -/
def gt (left right : Expr) : Expr := .binary left .gt right

/-- The test for a left side that is not less. -/
def ge (left right : Expr) : Expr := .binary left .gte right

/-- The test for a lesser left side. -/
def lt (left right : Expr) : Expr := .binary left .lt right

/-- The test for a left side that is not greater. -/
def le (left right : Expr) : Expr := .binary left .lte right

/-- The pattern match. -/
def like (left right : Expr) : Expr := .binary left .like right

/-- The negated pattern match. -/
def notLike (left right : Expr) : Expr := .binary left .notLike right

/-- The sum. -/
def add (left right : Expr) : Expr := .binary left .add right

/-- The difference. -/
def sub (left right : Expr) : Expr := .binary left .subtract right

/-- The product. -/
def mul (left right : Expr) : Expr := .binary left .multiply right

/-- The quotient. -/
def div (left right : Expr) : Expr := .binary left .divide right

/-- The test for null. -/
def isNull (e : Expr) : Expr := .nullTest e true

/-- The test for anything but null. -/
def isNotNull (e : Expr) : Expr := .nullTest e false

/-- The test for a range, both ends included. -/
def inRange (e low high : Expr) : Expr := .between e low high true

/-- The test for being outside a range. -/
def notInRange (e low high : Expr) : Expr := .between e low high false

/-- Makes a membership or range test positive or negated, and leaves every other expression as it
is. -/
def withPolarity (positive : Bool) : Expr → Expr
  | inList e candidates _ => inList e candidates positive
  | between e low high _ => between e low high positive
  | e => e

/-- The test for being one of the candidates, of which there has to be one. -/
def oneOf (e : Expr) (candidates : List Expr) : Except Error Expr :=
  if candidates.isEmpty then .error .emptyInList else .ok (.inList e candidates true)

/-- The test for being none of the candidates, of which there has to be one. -/
def noneOf (e : Expr) (candidates : List Expr) : Except Error Expr :=
  (e.oneOf candidates).map (withPolarity false)

/-- The negation. A binary operation is put between parentheses, so that the negation is seen to
apply to all of it. -/
def negate : Expr → Expr
  | e@(binary _ _ _) => not (parens e)
  | e => not e

/-- The expressions joined by an operator from left to right. -/
def chain (op : Op) : List Expr → Option Expr
  | [] => none
  | e :: es => some (es.foldl (fun left right => binary left op right) e)

/-- The conjunction of all conditions. A single condition stays as it is, and no condition at all
is the literal for true. -/
def all (conditions : List Expr) : Expr :=
  (chain .and conditions).getD (.literal (.bool true))

/-- The disjunction of the conditions between parentheses; no condition at all is the literal for
false. -/
def any (conditions : List Expr) : Expr :=
  match chain .or conditions with
  | some e => parens e
  | none => .literal (.bool false)

end SqlCompose.Expr
