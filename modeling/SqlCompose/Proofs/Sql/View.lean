import SqlCompose.Sql.Statement

/-!
# Views of tokens

A view takes something from the names and the bound values of tokens, and nothing from any other
token. What it shows of a statement is therefore what it shows of the expressions, the tables and
the names given to entries, clause by clause, whatever stands between them and around them.

## Main definitions

* `Token.View`, `Token.View.seen`: views, and what one shows of a token list.

## Main results

* `Statement.seen_tokens`: what is seen of a statement is what is seen of its clauses.
-/

namespace SqlCompose

/-- What is taken from a name and from a bound value. -/
structure Token.View (α : Type) where
  ofName : String → List α
  ofBound : Value → List α

namespace Token.View

variable {α : Type} (v : View α)

/-- What is taken from a token. -/
def ofToken : Token → List α
  | name s => v.ofName s
  | bound x => v.ofBound x
  | _ => []

/-- What a view shows of a token list, first to last. -/
def seen (ts : List Token) : List α := ts.flatMap v.ofToken

@[simp] theorem seen_nil : v.seen [] = [] := rfl

@[simp] theorem seen_append (ts us : List Token) : v.seen (ts ++ us) = v.seen ts ++ v.seen us :=
  List.flatMap_append

@[simp] theorem seen_keyword (k : Keyword) (ts : List Token) :
    v.seen (.keyword k :: ts) = v.seen ts := rfl

@[simp] theorem seen_name (s : String) (ts : List Token) :
    v.seen (.name s :: ts) = v.ofName s ++ v.seen ts := rfl

@[simp] theorem seen_bound (x : Value) (ts : List Token) :
    v.seen (.bound x :: ts) = v.ofBound x ++ v.seen ts := rfl

@[simp] theorem seen_grouped (group : Bool) (ts : List Token) :
    v.seen (grouped group ts) = v.seen ts := by
  cases group with
  | false => rfl
  | true => exact (v.seen_append ts [closing]).trans (List.append_nil _)

theorem seen_commaSeparated :
    (items : List (List Token)) → v.seen (commaSeparated items) = items.flatMap v.seen
  | [] => rfl
  | [item] => (List.flatMap_singleton v.seen item).symm
  | item :: next :: items => by
    rw [List.flatMap_cons, ← seen_commaSeparated (next :: items)]
    exact v.seen_append item (.comma :: commaSeparated (next :: items))

@[simp] theorem seen_op (op : Op) : v.seen op.tokens = [] := by
  cases op <;> rfl

@[simp] theorem seen_polarity (positive : Bool) : v.seen (Expr.polarity positive) = [] := by
  cases positive <;> rfl

theorem seen_aliasTokens (a : Option String) :
    v.seen (aliasTokens a) = a.toList.flatMap v.ofName := by
  cases a <;> rfl

theorem seen_predicateTokens (k : Keyword) (p : Option Expr) :
    v.seen (predicateTokens k p) = p.toList.flatMap fun e => v.seen e.tokens := by
  cases p with
  | none => rfl
  | some e => exact (List.flatMap_singleton _ _).symm

theorem seen_windowTokens (d : Dialect) (limit offset : Option UInt64) :
    v.seen (d.windowTokens limit offset) = [] := by
  cases d <;> cases limit <;> cases offset <;> rfl

theorem seen_groupTokens (groups : Option (List Expr)) :
    v.seen (Statement.groupTokens groups) =
      (groups.getD []).flatMap fun e => v.seen e.tokens := by
  cases groups with
  | none => rfl
  | some es =>
    rw [Statement.groupTokens, seen_keyword, seen_keyword, seen_commaSeparated, List.flatMap_map,
      Option.getD_some]

theorem seen_orderTokens (orders : List OrderClause) :
    v.seen (Statement.orderTokens orders) = orders.flatMap fun o => v.seen o.expr.tokens := by
  have horder (o : OrderClause) : v.seen o.tokens = v.seen o.expr.tokens :=
    (v.seen_append _ _).trans (List.append_nil _)
  cases orders with
  | nil => rfl
  | cons o os =>
    simp only [Statement.orderTokens, seen_keyword, seen_commaSeparated, List.flatMap_map, horder]

theorem seen_joinTokens (joins : List JoinClause) :
    v.seen (joins.flatMap JoinClause.tokens) =
      joins.flatMap fun j => v.seen j.source.tokens ++ v.seen j.on.tokens := by
  have hjoin (j : JoinClause) : j.tokens.flatMap v.ofToken =
      v.seen j.source.tokens ++ v.seen j.on.tokens :=
    v.seen_append j.source.tokens (.keyword .ON :: j.on.tokens)
  simp only [seen, List.flatMap_assoc, hjoin]

end Token.View

/-- What is seen of a statement is what is seen of its clauses, entry by entry. -/
theorem Statement.seen_tokens {α : Type} (v : Token.View α) (d : Dialect) (s : Statement) :
    v.seen (s.tokens d) =
      s.items.flatMap (fun i => v.seen i.expr.tokens ++ i.aliasName.toList.flatMap v.ofName) ++
        (v.ofName s.source.table ++ s.source.aliasName.toList.flatMap v.ofName) ++
        s.joins.flatMap (fun j => v.ofName j.source.table ++
          j.source.aliasName.toList.flatMap v.ofName ++ v.seen j.on.tokens) ++
        s.filter.toList.flatMap (fun e => v.seen e.tokens) ++
        (s.groups.getD []).flatMap (fun e => v.seen e.tokens) ++
        s.groupFilter.toList.flatMap (fun e => v.seen e.tokens) ++
        s.orders.flatMap fun o => v.seen o.expr.tokens := by
  have hitem (i : OutputItem) : v.seen i.tokens =
      v.seen i.expr.tokens ++ i.aliasName.toList.flatMap v.ofName := by
    rw [OutputItem.tokens, v.seen_append, v.seen_aliasTokens]
  have hsource (c : SourceClause) : v.seen c.tokens =
      v.ofName c.table ++ c.aliasName.toList.flatMap v.ofName := by
    rw [SourceClause.tokens, v.seen_name, v.seen_aliasTokens]
  simp only [tokens, List.cons_append, v.seen_keyword, v.seen_append, v.seen_commaSeparated,
    List.flatMap_map, hitem, hsource, v.seen_joinTokens, v.seen_predicateTokens,
    v.seen_groupTokens, v.seen_orderTokens, v.seen_windowTokens, List.append_nil,
    List.append_assoc]

end SqlCompose
