import SqlCompose.Proofs.Query.Clauses
import SqlCompose.Proofs.Sql.Lexeme
import SqlCompose.Proofs.Sql.View

/-!
# Placeholders and bindings

The bindings of a compiled query are the literals of the query in the order in which a reader of
the clauses meets them: the select list, the conditions of the joins depth first from the top, the
predicates on rows, the groups, the predicates on groups, and the orders. `Query.literals` lists
them from the query alone, and looks at neither tokens nor statements.

In the text each of them has one placeholder, in the same order. What stands in quoted names is
never taken for one, since the text is read by `Lexeme.lex`.

## Main definitions

* `Expr.literals`, `Join.literals`, `Query.literals`: the literals of an expression, of
  the conditions in a join tree, and of a query.
* `Dialect.placeholders`: the placeholders of a dialect for a number of bindings.

## Main results

* `Statement.bindings_tokens`: the bindings of a statement are the literals of its clauses.
* `Query.compile_placeholders`: the bindings of a query are its literals, and the placeholders of
  its text correspond to them one to one.
-/

namespace SqlCompose

/-! ### Literals -/

namespace Expr

mutual

/-- The literals of an expression from left to right. -/
def literals : Expr → List Value
  | column _ => []
  | literal v => [v]
  | not e | nullTest e _ | parens e => e.literals
  | binary left _ right => left.literals ++ right.literals
  | inList e candidates _ => e.literals ++ literalsEach candidates
  | between e low high _ => e.literals ++ low.literals ++ high.literals

/-- The literals of the expressions, one expression after the other. -/
def literalsEach : List Expr → List Value
  | [] => []
  | e :: es => e.literals ++ literalsEach es

end

end Expr

/-- The literals of an entry of a select or group list. Columns have none. -/
def SelectItem.literals : SelectItem → List Value
  | expr e | aliased e _ => e.literals
  | columns _ | join _ => []

/-- The literals of a condition that can be written. -/
def conditionLiterals : Except Error Expr → List Value
  | .ok e => e.literals
  | .error _ => []

namespace Join

mutual

/-- The literals of the conditions of a join tree below a table: those of its own condition, then
those of the trees below it. -/
def literals (parent : TableRef) : Join → List Value
  | j@⟨_, _, right, _, children⟩ =>
    conditionLiterals (j.predicate parent) ++ literalsAll right children

/-- The literals of the conditions of all the trees below one table. -/
def literalsAll (parent : TableRef) : List Join → List Value
  | [] => []
  | j :: js => j.literals parent ++ literalsAll parent js

end

end Join

/-- The literals of a query, clause by clause. -/
def Query.literals (q : Query) : List Value :=
  q.selected.flatMap SelectItem.literals ++ Join.literalsAll q.source q.joins ++
    q.filters.flatMap Expr.literals ++ q.groups.flatMap SelectItem.literals ++
    q.groupFilters.flatMap Expr.literals ++ q.orders.flatMap fun o => o.expr.literals

/-- The placeholders of a dialect for so many bindings, first to last. -/
def Dialect.placeholders (n : Nat) : Dialect → List String
  | postgresql => (List.range n).map fun i => "$" ++ toString (i + 1)
  | sqlite | mysql => List.replicate n "?"

/-! ### Bindings of tokens -/

/-- The view of the values bound by tokens. -/
def Token.View.bindings : Token.View Value := ⟨fun _ => [], fun x => [x]⟩

theorem Token.bindings_eq_seen (ts : List Token) : bindings ts = View.bindings.seen ts := by
  rw [bindings, List.filterMap_eq_flatMap_toList]
  refine congrArg (ts.flatMap ·) (funext fun t => ?_)
  cases t <;> rfl

namespace Expr

open Token (View)

mutual

/-- The values bound by an expression are its literals from left to right, wherever it is
grouped. -/
theorem seen_bindings_tokens : (e : Expr) → View.bindings.seen e.tokens = e.literals
  | column c => rfl
  | literal v => rfl
  | not e => by simp [tokens, literals, seen_bindings_tokens e]
  | binary left op right => by
    simp [tokens, literals, seen_bindings_tokens left, seen_bindings_tokens right]
  | nullTest e positive => by simp [tokens, literals, seen_bindings_tokens e]
  | inList e candidates positive => by
    simp [tokens, literals, seen_bindings_tokens e, View.seen_commaSeparated,
      seen_bindings_tokensEach candidates]
  | between e low high positive => by
    simp [tokens, literals, seen_bindings_tokens e, seen_bindings_tokens low,
      seen_bindings_tokens high]
  | parens e => by simp [tokens, literals, seen_bindings_tokens e]

theorem seen_bindings_tokensEach : (es : List Expr) →
    (tokensEach es).flatMap View.bindings.seen = literalsEach es
  | [] => rfl
  | e :: es => by
    simp [tokensEach, literalsEach, seen_bindings_tokens e, seen_bindings_tokensEach es]

end

end Expr

/-! ### Bindings of clauses -/

/-- The literals of an optional predicate. -/
def predicateLiterals : Option Expr → List Value
  | none => []
  | some e => e.literals

theorem predicateLiterals_eq (p : Option Expr) :
    predicateLiterals p = p.toList.flatMap Expr.literals := by
  cases p with
  | none => rfl
  | some e => exact (List.flatMap_singleton _ _).symm

/-- The bindings of a statement are the literals of its clauses, clause by clause. -/
theorem Statement.bindings_tokens (d : Dialect) (s : Statement) :
    Token.bindings (s.tokens d) =
      s.items.flatMap (fun i => i.expr.literals) ++ s.joins.flatMap (fun j => j.on.literals) ++
        predicateLiterals s.filter ++ (s.groups.getD []).flatMap Expr.literals ++
        predicateLiterals s.groupFilter ++ s.orders.flatMap fun o => o.expr.literals := by
  have hname (a : Option String) : a.toList.flatMap Token.View.bindings.ofName = [] := by
    cases a <;> rfl
  have htable (name : String) : Token.View.bindings.ofName name = [] := rfl
  simp only [Token.bindings_eq_seen, seen_tokens, Expr.seen_bindings_tokens, hname, htable,
    predicateLiterals_eq, List.append_nil, List.nil_append]

/-! ### Literals of clauses -/

theorem TableRef.literals_outputs (t : TableRef) :
    t.outputs.flatMap (fun i => i.expr.literals) = [] := by
  simp [outputs, Expr.literals]

/-- The columns of a join tree have no literals. -/
theorem Join.literals_outputs (j : Join) : j.outputs.flatMap (fun i => i.expr.literals) = [] := by
  rw [j.outputs_eq_walk j.right, List.flatMap_assoc]
  exact List.flatMap_eq_nil_iff.mpr fun step _ => step.2.right.literals_outputs

theorem SelectItem.literals_entries (item : SelectItem) :
    item.entries.flatMap (fun i => i.expr.literals) = item.literals := by
  cases item with
  | expr e | aliased e aliasName => simp [entries, literals]
  | columns t => exact t.literals_outputs
  | join j => exact j.literals_outputs

theorem SelectItem.literals_groups {item : SelectItem} {es : List Expr}
    (h : item.groups = .ok es) : item.literals = es.flatMap Expr.literals := by
  rw [← literals_entries, eq_of_groups h, List.flatMap_map]

theorem predicateLiterals_conjoined (es : List Expr) :
    predicateLiterals (conjoined es) = es.flatMap Expr.literals := by
  rw [predicateLiterals_eq]
  exact flatMap_conjoined (fun _ _ => rfl) es

mutual

/-- The conditions of a join tree are met as its joins are walked. -/
theorem Join.literals_eq_walk (parent : TableRef) : (j : Join) → j.literals parent =
    (j.walk parent).flatMap fun step => conditionLiterals (step.2.predicate step.1)
  | ⟨_, _, right, _, children⟩ => by
    simp [literals, walk, Join.literalsAll_eq_walkAll right children]

theorem Join.literalsAll_eq_walkAll (parent : TableRef) : (js : List Join) →
    literalsAll parent js =
      (walkAll parent js).flatMap fun step => conditionLiterals (step.2.predicate step.1)
  | [] => rfl
  | j :: js => by
    simp [literalsAll, walkAll, Join.literals_eq_walk parent j,
      Join.literalsAll_eq_walkAll parent js]

end

theorem Join.Writes.literals_eq {j : Join} {parent : TableRef} {clause : JoinClause}
    (h : j.Writes parent clause) :
    conditionLiterals (j.predicate parent) = clause.on.literals := by
  obtain ⟨e, he, rfl⟩ := h
  rw [he]
  rfl

/-- The bindings of the statement of a query are the literals of the query. -/
theorem Query.bindings_statement {q : Query} {s : Statement} (h : q.statement = .ok s)
    (d : Dialect) : Token.bindings (s.tokens d) = q.literals := by
  have hr := resolves_of_statement h
  have hselect : s.items.flatMap (fun i => i.expr.literals) =
      q.selected.flatMap SelectItem.literals := by
    rw [hr.items, List.flatMap_assoc]
    exact congrArg (q.selected.flatMap ·) (funext SelectItem.literals_entries)
  have hon : s.joins.flatMap (fun j => j.on.literals) = Join.literalsAll q.source q.joins := by
    rw [Join.literalsAll_eq_walkAll]
    exact (flatMap_of_forall₂ (fun _ _ hw => hw.literals_eq) hr.joins).symm
  obtain ⟨-, -, -, -, hg, -⟩ := statement_eq_ok_iff.mp h
  have hgroups : q.groups.flatMap SelectItem.literals = (s.groups.getD []).flatMap Expr.literals :=
    flatMap_of_groupList (fun _ _ => SelectItem.literals_groups) hg
  rw [Statement.bindings_tokens, hselect, hon, ← hgroups, hr.filter, hr.groupFilter, hr.orders,
    predicateLiterals_conjoined, predicateLiterals_conjoined, List.flatMap_map]
  rfl

/-! ### Placeholders -/

/-- The placeholders of a token list are numbered on from that of the first binding. -/
theorem Token.placeholders_lexemesFrom (d : Dialect) (index : Nat) (ts : List Token) :
    (lexemesFrom d index ts).filterMap Lexeme.placeholder? =
      (List.range (bindings ts).length).map fun i => d.placeholder (index + i) := by
  induction ts generalizing index with
  | nil => rfl
  | cons t ts ih =>
    rw [lexemesFrom, List.filterMap_append, ih]
    rcases t.bound_or_lexemes_eq d index with ⟨v, rfl⟩ | ⟨hl, hn, hb⟩
    · rw [bindings_bound, List.length_cons, List.range_succ_eq_map, List.map_cons, List.map_map]
      simp [lexemes, Lexeme.placeholder?, nextIndex, Nat.add_assoc, Nat.add_comm 1]
    · have hnone : (t.visible.map Lexeme.token).filterMap Lexeme.placeholder? = [] := by
        simp [Lexeme.placeholder?]
      rw [hl, hn, hb, hnone, List.nil_append]

theorem Dialect.placeholders_eq (d : Dialect) (n : Nat) :
    (List.range n).map (fun i => d.placeholder (1 + i)) = d.placeholders n := by
  cases d with
  | postgresql => simp [placeholders, placeholder, Nat.add_comm 1]
  | sqlite | mysql => simp [placeholders, placeholder, List.map_const']

/-- The bindings of a compiled query are the literals of the query, clause by clause and from left
to right, and the placeholders of the text are as many, in the order of the bindings, whatever the
names in the query are. -/
theorem Query.compile_placeholders (q : Query) (ctx : Context) {mark : Char}
    (hc : ctx.quoting.mark? = some mark) {c : Compiled} (h : q.compile ctx = .ok c) :
    c.bindings = q.literals ∧ ∃ ls, Lexeme.lex mark c.sql.toList = some ls ∧
      ls.filterMap Lexeme.placeholder? = ctx.dialect.placeholders c.bindings.length := by
  obtain ⟨s, hs, rfl⟩ := exists_statement h
  refine ⟨bindings_statement hs ctx.dialect, _, Lexeme.lex_textOf hc _, ?_⟩
  rw [Token.placeholders_lexemesFrom, Dialect.placeholders_eq]
  rfl

/-- A name that looks like placeholders, between literals of three clauses. -/
theorem Query.compile_placeholders_named :
    let t := TableRef.ofModel ⟨"M", "?$1", [⟨"n", .int .int64, "\"$2", rfl⟩], by decide⟩
    let lit (n : Int64) := Expr.literal (.integer n)
    let on := Join.on "r" "?$1" t fun _ _ => .ok (.eq (lit 2) (.literal .null))
    let q := (((ofTable t).select [.expr (lit 1), .columns t]).innerJoin on).filter (lit 1)
    ∃ c, q.compile (.ofDialect .postgresql) = .ok c ∧ c.bindings = q.literals ∧
      ∃ ls, Lexeme.lex '"' c.sql.toList = some ls ∧
        ls.filterMap Lexeme.placeholder? = Dialect.postgresql.placeholders c.bindings.length :=
  ⟨_, rfl, compile_placeholders _ (.ofDialect .postgresql) rfl rfl⟩

end SqlCompose
