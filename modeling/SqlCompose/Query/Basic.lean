import SqlCompose.Query.Join

/-!
# Queries

A query is a value: every builder takes one and gives the next. Predicates, joins, groups and
orders accumulate in the order of the calls, while a selection, a limit or an offset replaces the
one before it. A query keeps the select list that counts until one is chosen: attaching a join
extends it, whether a list has been chosen by then or not.

## Main definitions

* `SelectItem`, `OrderItem`: entries of select, group and order lists.
* `Query`, `Query.ofTable`: queries, and the one that reads a whole table.
* `Query.innerJoin`, `Query.select`, `Query.filter`, `Query.groupBy`, `Query.having`,
  `Query.orderBy`, `Query.withLimit`, `Query.withOffset`: the builders.
* `Query.selected`: the select list that counts, chosen or default.
-/

namespace SqlCompose

/-- An entry of a select or group list: a computed value, one under a name of its own, all columns
of a table, or all columns of a join's tables. -/
inductive SelectItem where
  | expr (e : Expr)
  | aliased (e : Expr) (aliasName : String)
  | columns (t : TableRef)
  | join (j : Join)

/-- The direction of an order. -/
inductive Direction where
  | ascending
  | descending
  deriving DecidableEq, Repr

/-- The reserved word of a direction. -/
def Direction.keyword : Direction → Keyword
  | ascending => .ASC
  | descending => .DESC

/-- An entry of an order list. -/
structure OrderItem where
  expr : Expr
  direction : Direction
  deriving Repr

/-- A query on a table. `selection` is `none` until a select list is chosen, and
`defaultSelection` is the list that counts until then. -/
@[ext]
structure Query where
  source : TableRef
  selection : Option (List SelectItem)
  defaultSelection : List SelectItem
  joins : List Join
  filters : List Expr
  groups : List SelectItem
  groupFilters : List Expr
  orders : List OrderItem
  limit : Option UInt64
  offset : Option UInt64

namespace Query

/-- The query that reads all rows of a table. -/
def ofTable (t : TableRef) : Query := ⟨t, none, [.columns t], [], [], [], [], [], none, none⟩

/-- Joins off the query's table, under its identifier. The tables of the join are selected by
default. -/
def innerJoin (q : Query) (j : Join) : Query :=
  let named := j.rebase q.source.identifier
  { q with
    defaultSelection := q.defaultSelection ++ [.join named]
    joins := q.joins ++ [named] }

/-- Chooses the select list. -/
def select (q : Query) (items : List SelectItem) : Query := { q with selection := some items }

/-- Keeps only the rows that satisfy one more predicate. -/
def filter (q : Query) (predicate : Expr) : Query := { q with filters := q.filters ++ [predicate] }

/-- Groups the rows by more items. -/
def groupBy (q : Query) (items : List SelectItem) : Query := { q with groups := q.groups ++ items }

/-- Keeps only the groups that satisfy one more predicate. -/
def having (q : Query) (predicate : Expr) : Query :=
  { q with groupFilters := q.groupFilters ++ [predicate] }

/-- Orders the rows by more entries. -/
def orderBy (q : Query) (entries : List OrderItem) : Query :=
  { q with orders := q.orders ++ entries }

/-- Keeps at most so many rows. -/
def withLimit (q : Query) (n : UInt64) : Query := { q with limit := some n }

/-- Skips so many rows. -/
def withOffset (q : Query) (n : UInt64) : Query := { q with offset := some n }

/-- The column of a field of the query's table. -/
def column (q : Query) (field : String) : Except Error Column := q.source.column field

/-- The first join of a name directly below the query's table. -/
def join (q : Query) (name : String) : Except Error Join :=
  match q.joins.find? (·.name = name) with
  | some j => .ok j
  | none => .error (.unknownRelation q.source.table name)

/-- The select list that is compiled and that rows are read back by. -/
def selected (q : Query) : List SelectItem := q.selection.getD q.defaultSelection

end Query

end SqlCompose
