import SqlCompose.Expr.Print

/-!
# Select statements

A statement is its clauses with everything resolved: lists of columns are spelled out, and every
join has its condition. `Statement.render` writes it for a context.

## Main definitions

* `Statement`: the clauses.
* `Statement.tokens`, `Statement.render`: the tokens of a statement, and its text.
-/

namespace SqlCompose

/-- An entry of a select list: an expression, perhaps under a name of its own. -/
structure OutputItem where
  expr : Expr
  aliasName : Option String
  deriving Repr

/-- A table, perhaps under an alias. -/
structure SourceClause where
  table : String
  aliasName : Option String
  deriving DecidableEq, Repr

/-- An inner join of a table on a condition. -/
structure JoinClause where
  source : SourceClause
  on : Expr
  deriving Repr

/-- An entry of an order list. -/
structure OrderClause where
  expr : Expr
  keyword : Keyword
  deriving Repr

/-- A select statement. The optional clauses are absent when `none`, and an order list when it has
no entry. -/
structure Statement where
  items : List OutputItem
  source : SourceClause
  joins : List JoinClause
  filter : Option Expr
  groups : Option (List Expr)
  groupFilter : Option Expr
  orders : List OrderClause
  limit : Option UInt64
  offset : Option UInt64
  deriving Repr

/-- The tokens that give a name to what stands before them. -/
def aliasTokens : Option String → List Token
  | none => []
  | some aliasName => [.keyword .AS, .name aliasName]

/-- The tokens of a select entry. -/
def OutputItem.tokens (i : OutputItem) : List Token := i.expr.tokens ++ aliasTokens i.aliasName

/-- The tokens of a table. -/
def SourceClause.tokens (s : SourceClause) : List Token := .name s.table :: aliasTokens s.aliasName

/-- The tokens of a join. -/
def JoinClause.tokens (j : JoinClause) : List Token :=
  .keyword .INNER :: .keyword .JOIN :: j.source.tokens ++ .keyword .ON :: j.on.tokens

/-- The tokens of an order entry. -/
def OrderClause.tokens (o : OrderClause) : List Token := o.expr.tokens ++ [.keyword o.keyword]

/-- The tokens of an optional predicate after a reserved word. -/
def predicateTokens (k : Keyword) : Option Expr → List Token
  | none => []
  | some e => .keyword k :: e.tokens

namespace Statement

/-- The tokens of a group clause. -/
def groupTokens : Option (List Expr) → List Token
  | none => []
  | some es => .keyword .GROUP :: .keyword .BY :: Token.commaSeparated (es.map Expr.tokens)

/-- The tokens of an order clause. -/
def orderTokens : List OrderClause → List Token
  | [] => []
  | os => .keyword .ORDER :: .keyword .BY :: Token.commaSeparated (os.map OrderClause.tokens)

/-- The tokens of a statement for a dialect, which has a part in the last clause only. -/
def tokens (d : Dialect) (s : Statement) : List Token :=
  .keyword .SELECT :: Token.commaSeparated (s.items.map OutputItem.tokens) ++
    .keyword .FROM :: s.source.tokens ++ s.joins.flatMap JoinClause.tokens ++
    predicateTokens .WHERE s.filter ++ groupTokens s.groups ++
    predicateTokens .HAVING s.groupFilter ++ orderTokens s.orders ++
    d.windowTokens s.limit s.offset

/-- The statement for a context. -/
def render (ctx : Context) (s : Statement) : Compiled := Token.render ctx (s.tokens ctx.dialect)

end Statement

end SqlCompose
