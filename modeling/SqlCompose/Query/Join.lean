import SqlCompose.Query.TableRef

/-!
# Joins

A join brings in one table and, below it, the joins that start at that table. Attached under an
identifier, a join's table is known by the path to it: the identifiers and relation names on the
way, with underscores between them. The condition of a join is written only when both tables are
known by their final identifiers.

## Main definitions

* `Join`: a join and the joins below it.
* `Join.rebase`, `Join.innerJoin`: naming by path, and attaching one join below another.
* `Join.walk`: the joins of a tree, each with the table it starts at, depth first from the top.
* `Join.predicate`: the condition of one join.
-/

namespace SqlCompose

/-- A join called `name` from the table `left` to the table `right`, on a condition over the two,
and the joins that start at `right`. -/
structure Join where
  name : String
  left : String
  right : TableRef
  condition : TableRef → TableRef → Except Error Expr
  children : List Join

namespace Join

/-- A join with nothing below it. -/
def on (name left : String) (right : TableRef)
    (condition : TableRef → TableRef → Except Error Expr) : Join :=
  ⟨name, left, right, condition, []⟩

/-- The identifier of a join under its parent's identifier. -/
def pathName (parent name : String) : String := parent ++ "_" ++ name

mutual

/-- The join under a parent's identifier, and all that is below it under the new one. -/
def rebase (parent : String) : Join → Join
  | ⟨name, left, right, condition, children⟩ =>
    ⟨name, left, right.aliased (pathName parent name), condition,
      rebaseAll (pathName parent name) children⟩

/-- Every join under a parent's identifier. -/
def rebaseAll (parent : String) : List Join → List Join
  | [] => []
  | j :: js => j.rebase parent :: rebaseAll parent js

end

theorem rebaseAll_eq_map (parent : String) (js : List Join) :
    rebaseAll parent js = js.map (rebase parent) := by
  induction js with
  | nil => rfl
  | cons j js ih => simp [rebaseAll, ih]

@[simp] theorem name_rebase (parent : String) (j : Join) : (j.rebase parent).name = j.name := by
  cases j; rfl

@[simp] theorem right_rebase (parent : String) (j : Join) :
    (j.rebase parent).right = j.right.aliased (pathName parent j.name) := by
  cases j; rfl

/-- Attaches a join below this one, after those already there. -/
def innerJoin (j other : Join) : Join :=
  { j with children := j.children ++ [other.rebase j.right.identifier] }

/-- The first join of a name directly below this one. -/
def child? (j : Join) (name : String) : Option Join :=
  j.children.find? (·.name = name)

/-- The column of a field of the joined table. -/
def column (j : Join) (field : String) : Except Error Column := j.right.column field

/-- The condition of the join below the table `parent`, which has to be the one that the join
starts at. -/
def predicate (j : Join) (parent : TableRef) : Except Error Expr :=
  if j.left = parent.table then j.condition parent j.right
  else .error (.misplacedJoin j.name j.left parent.table)

mutual

/-- The joins of the tree, each after the table that it hangs below, depth first from the top. -/
def walk (parent : TableRef) : Join → List (TableRef × Join)
  | j@⟨_, _, right, _, children⟩ => (parent, j) :: walkAll right children

/-- The joins of all the trees that hang below one table. -/
def walkAll (parent : TableRef) : List Join → List (TableRef × Join)
  | [] => []
  | j :: js => j.walk parent ++ walkAll parent js

end

theorem walkAll_eq_flatMap (parent : TableRef) (js : List Join) :
    walkAll parent js = js.flatMap (walk parent) := by
  induction js with
  | nil => rfl
  | cons j js ih => simp [walkAll, ih]

mutual

/-- The description of a join tree. -/
def describe : Join → String
  | ⟨name, left, right, _, children⟩ =>
    "JoinNode \x7b name: " ++ Quoted.quote name ++ ", left_table: " ++ Quoted.quote left ++
      ", right: " ++ Quoted.quote right.identifier ++ ", children: " ++
      Quoted.bracketed (describeEach children) ++ " \x7d"

/-- The descriptions of the trees. -/
def describeEach : List Join → List String
  | [] => []
  | j :: js => j.describe :: describeEach js

end

end Join

end SqlCompose
