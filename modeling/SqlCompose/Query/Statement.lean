import SqlCompose.Query.Basic
import SqlCompose.Sql.Statement

/-!
# The statement of a query

A query is resolved clause by clause, in the order in which the clauses are written, so that the
first clause that can not be written gives the error: the select list, the joins depth first, the
predicates on rows, the group list, the predicates on groups, the order list. No context takes
part in it, so that a query either compiles for every context or fails alike for all.

## Main definitions

* `Join.outputs`, `SelectItem.outputs`, `SelectItem.groups`: the expressions that an entry of a
  select list or of a group list stands for.
* `Query.statement`: the resolved statement.
* `Query.compile`: its text and bindings for a context.
-/

namespace SqlCompose

/-- The columns of a table as select entries. -/
def TableRef.outputs (t : TableRef) : List OutputItem := t.columns.map fun c => ⟨.column c, none⟩

/-- The clause that brings in a table. -/
def TableRef.clause (t : TableRef) : SourceClause := ⟨t.table, t.aliasName⟩

namespace Join

mutual

/-- The columns of a join's table as select entries, then those of the joins below it. -/
def outputs : Join → List OutputItem
  | ⟨_, _, right, _, children⟩ => right.outputs ++ outputsAll children

/-- The columns of the tables of all the trees as select entries. -/
def outputsAll : List Join → List OutputItem
  | [] => []
  | j :: js => j.outputs ++ outputsAll js

end

end Join

/-- The select entries that an item stands for. -/
def SelectItem.outputs : SelectItem → Except Error (List OutputItem)
  | .expr e => do return [⟨← e.checked, none⟩]
  | .aliased e aliasName => do return [⟨← e.checked, some aliasName⟩]
  | .columns t => .ok t.outputs
  | .join j => .ok j.outputs

/-- The expressions that an item of a group list stands for. Groups have no names. -/
def SelectItem.groups : SelectItem → Except Error (List Expr)
  | .aliased _ _ => .error .aliasedGroupItem
  | item => do return (← item.outputs).map OutputItem.expr

/-- The clause of a join below the table that it hangs from. -/
def Join.clause (parent : TableRef) (j : Join) : Except Error JoinClause := do
  return ⟨j.right.clause, ← (← j.predicate parent).checked⟩

/-- The order clause of an entry. -/
def OrderItem.clause (o : OrderItem) : Except Error OrderClause := do
  return ⟨← o.expr.checked, o.direction.keyword⟩

/-- The conjunction of predicates, or `none` when there is none. -/
def conjunction : List Expr → Except Error (Option Expr)
  | [] => .ok none
  | es => some <$> (Expr.all es).checked

namespace Query

/-- The select entries of a query, of which there has to be an item. -/
def outputs (q : Query) : Except Error (List OutputItem) :=
  if q.selected.isEmpty then .error .emptySelect
  else return (← q.selected.mapM SelectItem.outputs).flatten

/-- The join clauses of a query, depth first. -/
def joinClauses (q : Query) : Except Error (List JoinClause) :=
  (Join.walkAll q.source q.joins).mapM fun (parent, j) => j.clause parent

/-- The group list of a query, or `none` when it has no item. -/
def groupList (q : Query) : Except Error (Option (List Expr)) :=
  if q.groups.isEmpty then .ok none
  else return some (← q.groups.mapM SelectItem.groups).flatten

/-- The statement of a query. -/
def statement (q : Query) : Except Error Statement := do
  return {
    items := ← q.outputs
    source := q.source.clause
    joins := ← q.joinClauses
    filter := ← conjunction q.filters
    groups := ← q.groupList
    groupFilter := ← conjunction q.groupFilters
    orders := ← q.orders.mapM OrderItem.clause
    limit := q.limit
    offset := q.offset }

/-- The text and the bindings of a query for a context. -/
def compile (ctx : Context) (q : Query) : Except Error Compiled :=
  q.statement.map (Statement.render ctx)

end Query

end SqlCompose
