import SqlCompose.Proofs.Query.Alike
import SqlCompose.Proofs.Sql.View

/-!
# Identifiers

The names in a compiled query are read back from its text one by one, each as a single quoted name,
whatever characters they have, and nothing else of the text depends on them: alike queries with
other names are read into the same lexemes but for the names.

`Query.identifiers` lists the names from the query alone, clause by clause and from left to right,
and looks at neither tokens nor statements.

## Main definitions

* `Expr.columns`: the columns that an expression refers to.
* `Expr.identifiers`, `Join.identifiers`, `Query.identifiers`: the names that an expression, the
  joins of a tree and a query are written with.
* `Lexeme.name?`, `Token.names`: the names that are read, and those of tokens.

## Main results

* `Statement.names_tokens`: the names of a statement are those of its clauses.
* `Query.compile_identifiers`: the names are read back from the text of a query, and the rest of
  the text is read as that of every alike query.
-/

namespace SqlCompose

/-! ### The names of a query -/

/-- The names that a column is written with. -/
def Column.identifiers (c : Column) : List String := [c.table, c.column]

namespace Expr

mutual

/-- The columns that an expression refers to, from left to right. -/
def columns : Expr → List Column
  | column c => [c]
  | literal _ => []
  | not e | nullTest e _ | parens e => e.columns
  | binary left _ right => left.columns ++ right.columns
  | inList e candidates _ => e.columns ++ columnsEach candidates
  | between e low high _ => e.columns ++ low.columns ++ high.columns

/-- The columns of the expressions, one expression after the other. -/
def columnsEach : List Expr → List Column
  | [] => []
  | e :: es => e.columns ++ columnsEach es

end

/-- The names that an expression is written with, from left to right. -/
def identifiers (e : Expr) : List String := e.columns.flatMap Column.identifiers

end Expr

/-- The names that bring in a table: its own, and its alias if it has one. -/
def TableRef.identifiers (t : TableRef) : List String := t.table :: t.aliasName.toList

/-- The names that the columns of a table are written with. -/
def TableRef.columnIdentifiers (t : TableRef) : List String :=
  t.columns.flatMap Column.identifiers

/-- The names in a condition that can be written. -/
def conditionIdentifiers : Except Error Expr → List String
  | .ok e => e.identifiers
  | .error _ => []

namespace Join

mutual

/-- The names that the columns of the tables of a tree are written with. -/
def columnIdentifiers : Join → List String
  | ⟨_, _, right, _, children⟩ => right.columnIdentifiers ++ columnIdentifiersAll children

/-- The names that the columns of the tables of all the trees are written with. -/
def columnIdentifiersAll : List Join → List String
  | [] => []
  | j :: js => j.columnIdentifiers ++ columnIdentifiersAll js

end

mutual

/-- The names that a tree of joins below a table is written with: those of its own table and
condition, then those of the trees below it. -/
def identifiers (parent : TableRef) : Join → List String
  | j@⟨_, _, right, _, children⟩ =>
    right.identifiers ++ conditionIdentifiers (j.predicate parent) ++ identifiersAll right children

/-- The names that all the trees below one table are written with. -/
def identifiersAll (parent : TableRef) : List Join → List String
  | [] => []
  | j :: js => j.identifiers parent ++ identifiersAll parent js

end

end Join

/-- The names that an entry of a select or group list is written with. -/
def SelectItem.identifiers : SelectItem → List String
  | expr e => e.identifiers
  | aliased e aliasName => e.identifiers ++ [aliasName]
  | columns t => t.columnIdentifiers
  | join j => j.columnIdentifiers

/-- The names that a query is written with, clause by clause. -/
def Query.identifiers (q : Query) : List String :=
  q.selected.flatMap SelectItem.identifiers ++ q.source.identifiers ++
    Join.identifiersAll q.source q.joins ++ q.filters.flatMap Expr.identifiers ++
    q.groups.flatMap SelectItem.identifiers ++ q.groupFilters.flatMap Expr.identifiers ++
    q.orders.flatMap fun o => o.expr.identifiers

/-! ### Names of tokens -/

namespace Token

/-- The name that a token is. -/
def name? : Token → Option String
  | name s => some s
  | _ => none

/-- The names in a token list, first to last. -/
def names (tokens : List Token) : List String := tokens.filterMap name?

/-- The view of the names of tokens. -/
def View.names : View String := ⟨fun s => [s], fun _ => []⟩

theorem names_eq_seen (ts : List Token) : names ts = View.names.seen ts := by
  rw [names, List.filterMap_eq_flatMap_toList]
  refine congrArg (ts.flatMap ·) (funext fun t => ?_)
  cases t <;> rfl

end Token

namespace Expr

open Token (View)

mutual

private theorem seen_tokens_columns :
    (e : Expr) → View.names.seen e.tokens = e.columns.flatMap Column.identifiers
  | column c => rfl
  | literal v => rfl
  | not e => by simp [tokens, columns, seen_tokens_columns e]
  | binary left op right => by
    simp [tokens, columns, seen_tokens_columns left, seen_tokens_columns right]
  | nullTest e positive => by simp [tokens, columns, seen_tokens_columns e]
  | inList e candidates positive => by
    simp [tokens, columns, seen_tokens_columns e, View.seen_commaSeparated,
      seen_tokensEach_columns candidates]
  | between e low high positive => by
    simp [tokens, columns, seen_tokens_columns e, seen_tokens_columns low,
      seen_tokens_columns high]
  | parens e => by simp [tokens, columns, seen_tokens_columns e]

private theorem seen_tokensEach_columns : (es : List Expr) →
    (tokensEach es).flatMap View.names.seen = (columnsEach es).flatMap Column.identifiers
  | [] => rfl
  | e :: es => by
    simp [tokensEach, columnsEach, seen_tokens_columns e, seen_tokensEach_columns es]

end

/-- The names of an expression are those of its columns, wherever it is grouped. -/
theorem seen_names_tokens (e : Expr) : View.names.seen e.tokens = e.identifiers :=
  seen_tokens_columns e

theorem identifiers_and (left right : Expr) :
    (binary left .and right).identifiers = left.identifiers ++ right.identifiers :=
  List.flatMap_append

end Expr

/-! ### Names of clauses -/

/-- The names of a select entry. -/
def OutputItem.identifiers (i : OutputItem) : List String :=
  i.expr.identifiers ++ i.aliasName.toList

/-- The names of a join clause. -/
def JoinClause.identifiers (j : JoinClause) : List String :=
  j.source.table :: j.source.aliasName.toList ++ j.on.identifiers

/-- The names of an optional predicate. -/
def predicateIdentifiers (p : Option Expr) : List String := p.toList.flatMap Expr.identifiers

/-- The names of a statement are those of its clauses, clause by clause. -/
theorem Statement.names_tokens (d : Dialect) (s : Statement) :
    Token.names (s.tokens d) =
      s.items.flatMap OutputItem.identifiers ++ s.source.table :: s.source.aliasName.toList ++
        s.joins.flatMap JoinClause.identifiers ++ predicateIdentifiers s.filter ++
        (s.groups.getD []).flatMap Expr.identifiers ++ predicateIdentifiers s.groupFilter ++
        s.orders.flatMap fun o => o.expr.identifiers := by
  have hname (a : Option String) : a.toList.flatMap Token.View.names.ofName = a.toList :=
    List.flatMap_singleton' _
  simp only [Token.names_eq_seen, seen_tokens, Expr.seen_names_tokens, hname]
  rfl

/-! ### Names of a query and of its clauses -/

theorem TableRef.identifiers_outputs (t : TableRef) :
    t.outputs.flatMap OutputItem.identifiers = t.columnIdentifiers := by
  simp [outputs, columnIdentifiers, List.flatMap_map, OutputItem.identifiers, Expr.identifiers,
    Expr.columns]

theorem TableRef.aliasName_outputs (t : TableRef) : ∀ i ∈ t.outputs, i.aliasName = none := by
  intro i hi
  obtain ⟨c, -, rfl⟩ := List.mem_map.mp hi
  rfl

namespace Join

/-- The columns of a tree of joins have no names of their own. -/
theorem aliasName_outputs (j : Join) : ∀ i ∈ j.outputs, i.aliasName = none := by
  intro i hi
  rw [j.outputs_eq_walk j.right, List.mem_flatMap] at hi
  obtain ⟨step, -, hi⟩ := hi
  exact step.2.right.aliasName_outputs i hi

mutual

theorem identifiers_outputs : (j : Join) →
    j.outputs.flatMap OutputItem.identifiers = j.columnIdentifiers
  | ⟨_, _, right, _, children⟩ => by
    rw [outputs, columnIdentifiers, List.flatMap_append, right.identifiers_outputs,
      identifiers_outputsAll children]

theorem identifiers_outputsAll : (js : List Join) →
    (outputsAll js).flatMap OutputItem.identifiers = columnIdentifiersAll js
  | [] => rfl
  | j :: js => by
    rw [outputsAll, columnIdentifiersAll, List.flatMap_append, identifiers_outputs j,
      identifiers_outputsAll js]

end

mutual

/-- The names of a tree of joins are met as its joins are walked. -/
theorem identifiers_eq_walk (parent : TableRef) : (j : Join) → j.identifiers parent =
    (j.walk parent).flatMap fun step =>
      step.2.right.identifiers ++ conditionIdentifiers (step.2.predicate step.1)
  | ⟨_, _, right, _, children⟩ => by
    simp [identifiers, walk, identifiersAll_eq_walkAll right children]

theorem identifiersAll_eq_walkAll (parent : TableRef) : (js : List Join) →
    identifiersAll parent js = (walkAll parent js).flatMap fun step =>
      step.2.right.identifiers ++ conditionIdentifiers (step.2.predicate step.1)
  | [] => rfl
  | j :: js => by
    simp [identifiersAll, walkAll, identifiers_eq_walk parent j,
      identifiersAll_eq_walkAll parent js]

end

theorem Writes.identifiers_eq {j : Join} {parent : TableRef} {clause : JoinClause}
    (h : j.Writes parent clause) :
    j.right.identifiers ++ conditionIdentifiers (j.predicate parent) = clause.identifiers := by
  obtain ⟨e, he, rfl⟩ := h
  rw [he]
  rfl

end Join

theorem SelectItem.identifiers_entries (item : SelectItem) :
    item.entries.flatMap OutputItem.identifiers = item.identifiers := by
  cases item with
  | expr e => simp [entries, identifiers, OutputItem.identifiers]
  | aliased e aliasName => simp [entries, identifiers, OutputItem.identifiers]
  | columns t => exact t.identifiers_outputs
  | join j => exact j.identifiers_outputs

/-- Groups have no names of their own, so that an item of a group list is written with the names
of its expressions. -/
theorem SelectItem.identifiers_groups {item : SelectItem} {es : List Expr}
    (h : item.groups = .ok es) : item.identifiers = es.flatMap Expr.identifiers := by
  have hunnamed : ∀ i ∈ item.entries, i.aliasName = none := by
    cases item with
    | aliased e aliasName => cases h
    | expr e =>
      intro i hi
      rw [List.mem_singleton.mp hi]
    | columns t => exact t.aliasName_outputs
    | join j => exact j.aliasName_outputs
  rw [← identifiers_entries, eq_of_groups h, List.flatMap_map]
  refine List.flatMap_congr fun i hi => ?_
  rw [OutputItem.identifiers, hunnamed i hi]
  exact List.append_nil _

theorem predicateIdentifiers_conjoined (es : List Expr) :
    predicateIdentifiers (conjoined es) = es.flatMap Expr.identifiers :=
  flatMap_conjoined Expr.identifiers_and es

namespace Query

/-- The names of the statement of a query are those of the query. -/
theorem names_statement {q : Query} {s : Statement} (h : q.statement = .ok s) (d : Dialect) :
    Token.names (s.tokens d) = q.identifiers := by
  have hr := resolves_of_statement h
  have hitems : s.items.flatMap OutputItem.identifiers =
      q.selected.flatMap SelectItem.identifiers := by
    rw [hr.items, List.flatMap_assoc]
    exact congrArg (q.selected.flatMap ·) (funext SelectItem.identifiers_entries)
  have hjoins : s.joins.flatMap JoinClause.identifiers =
      Join.identifiersAll q.source q.joins := by
    rw [Join.identifiersAll_eq_walkAll]
    exact (flatMap_of_forall₂ (fun _ _ hw => hw.identifiers_eq) hr.joins).symm
  obtain ⟨-, -, -, -, hg, -⟩ := statement_eq_ok_iff.mp h
  have hgroups : q.groups.flatMap SelectItem.identifiers =
      (s.groups.getD []).flatMap Expr.identifiers :=
    flatMap_of_groupList (fun _ _ => SelectItem.identifiers_groups) hg
  rw [Statement.names_tokens, hitems, hjoins, ← hgroups, hr.filter, hr.groupFilter, hr.orders,
    hr.source, predicateIdentifiers_conjoined, predicateIdentifiers_conjoined, List.flatMap_map]
  rfl

end Query

/-! ### Names in the text -/

/-- The name that a lexeme is. -/
def Lexeme.name? : Lexeme → Option String
  | token t => t.name?
  | placeholder _ => none

/-- The names that are read are those of the tokens. -/
theorem Token.filterMap_name?_lexemesFrom (d : Dialect) (index : Nat) (ts : List Token) :
    (lexemesFrom d index ts).filterMap Lexeme.name? = names ts := by
  induction ts generalizing index with
  | nil => rfl
  | cons t ts ih =>
    have htoken : (t.lexemes d index).filterMap Lexeme.name? = names [t] := by
      cases t with
      | number n => cases n <;> rfl
      | _ => rfl
    rw [lexemesFrom, List.filterMap_append, ih, htoken, names, names, names,
      ← List.filterMap_append, List.singleton_append]

/-- The names of a compiled query are read back from its text, each as one quoted name, and all
other lexemes of the text are those of every alike query with other names, place by place. -/
theorem Query.compile_identifiers (q : Query) (ctx : Context) {mark : Char}
    (hc : ctx.quoting.mark? = some mark) {c : Compiled} (h : q.compile ctx = .ok c) :
    ∃ ls, Lexeme.lex mark c.sql.toList = some ls ∧ ls.filterMap Lexeme.name? = q.identifiers ∧
      ∀ q' c', q.Alike .names q' → q'.compile ctx = .ok c' →
        ∃ ls', Lexeme.lex mark c'.sql.toList = some ls' ∧
          List.Forall₂ Lexeme.SameButName ls ls' := by
  obtain ⟨s, hs, rfl⟩ := exists_statement h
  refine ⟨_, Lexeme.lex_textOf hc _, ?_, fun q' c' halike h' => ?_⟩
  · rw [Token.filterMap_name?_lexemesFrom, names_statement hs]
  · obtain ⟨s', hs', rfl⟩ := exists_statement h'
    refine ⟨_, Lexeme.lex_textOf hc _, Lexeme.forall₂_of_masked ?_⟩
    rw [← Token.lexemesFrom_masked, ← Token.lexemesFrom_masked, ← Statement.tokens_masked,
      ← Statement.tokens_masked, halike.masked_eq hs hs']

/-- Names that begin and end with marks, look like placeholders or are empty, in a select list, a
source, a join and its condition, beside plain names in the same places. -/
theorem Query.compile_identifiers_marks :
    let table (name column : String) : TableRef :=
      .ofModel ⟨"M", name, [⟨"n", .int .int64, column, rfl⟩], by simp⟩
    let query (name column aliasName relation output : String) : Query :=
      let t := (table name column).aliased aliasName
      let on := Join.on relation name (table output column) fun left right => do
        return .eq (.column (← right.column "n")) (.column (← left.column "n"))
      ((ofTable t).innerJoin on).select [.columns t, .aliased (.literal .null) output, .join on]
    let q := query "\"" "?\"\"" "" "\"$1\" \"" "a\".\"b"
    let q' := query "t" "c" "a" "r" "o"
    ∃ c, q.compile (.ofDialect .sqlite) = .ok c ∧
      ∃ ls, Lexeme.lex '"' c.sql.toList = some ls ∧ ls.filterMap Lexeme.name? = q.identifiers ∧
        ∃ c', q.Alike .names q' ∧ q'.compile (.ofDialect .sqlite) = .ok c' ∧
          ∃ ls', Lexeme.lex '"' c'.sql.toList = some ls' ∧
            List.Forall₂ Lexeme.SameButName ls ls' := by
  intro table query q q'
  have halike : q.Alike .names q' := {
    source := ⟨rfl, rfl⟩
    selected := .cons (.columns ⟨rfl, rfl⟩) (.cons (.aliased rfl rfl)
      (.cons (.join (.node ⟨rfl, rfl⟩ .nil)) .nil))
    joins := .cons (.node ⟨rfl, rfl⟩ .nil) .nil
    conditions := .cons rfl .nil
    filters := rfl
    groups := .nil
    groupFilters := rfl
    orders := rfl
    limit := rfl
    offset := rfl }
  obtain ⟨ls, hls, hnames, hother⟩ := compile_identifiers q (.ofDialect .sqlite) rfl rfl
  exact ⟨_, rfl, ls, hls, hnames, _, halike, rfl, hother q' _ halike rfl⟩

end SqlCompose
