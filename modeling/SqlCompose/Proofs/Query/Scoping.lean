import SqlCompose.Proofs.Query.Assembly
import SqlCompose.Proofs.Query.Distinct
import SqlCompose.Proofs.Query.Identifiers
import SqlCompose.Proofs.Query.Outcome
import SqlCompose.Proofs.Query.Placeholders
import SqlCompose.Proofs.Sql.Reference

/-!
# The scope of joined tables

A tree of relations says what is joined to what: each relation starts at the model that the one
above it leads to. Joins made from such trees, whatever tables hand the relations out and in
whatever order the joins are attached, come to one clause for each relation, depth first, on the
equality of the relation's two fields. The table that a clause starts at is then the one that its
own relation hangs below, and every table has been brought in where a clause first refers to it.

The text of such a query is known for every context. Where names stand between marks it can be read
again, and what is read says by itself which tables are brought in and where they are referred to.

## Main definitions

* `RelationTree`, `RelationTree.Joins`: trees of relations, and the joins that are made from them.
* `RelationTree.Fits`: trees in which each relation starts at the model that it hangs below.
* `RelationTree.nodesAll`: the relations of trees, each with the identifier that it hangs below.
* `Relation.clause`: the clause of a relation below an identifier.
* `RelationTree.text`: the text of a query on a table with trees of relations joined to it.
* `Compiled.Scoped`: texts that refer to tables that they bring in.

## Main results

* `RelationTree.Joins.plan_eq`: joins made from a tree are planned by the tree.
* `RelationTree.parent_before`: an identifier that a relation hangs below comes before it.
* `Query.statement_trees`: the statement of a query that joins trees of relations.
* `Query.compile_scoped`: its text, and what is read in it.
-/

namespace SqlCompose

/-! ### The clause of a relation -/

theorem Model.isSome_field? {m : Model} {name : String} (h : m.hasField name = true) :
    (m.field? name).isSome = true := (m.isSome_field?_eq name).trans h

namespace Relation

/-- The field of the source model that the relation leads from. -/
def sourceKey (r : Relation) : Field :=
  (r.source.field? r.sourceField).get (Model.isSome_field? r.hasField_source)

/-- The field of the target model that the relation leads to. -/
def targetKey (r : Relation) : Field :=
  (r.target.field? r.targetField).get (Model.isSome_field? r.hasField_target)

theorem field?_sourceKey (r : Relation) : r.source.field? r.sourceField = some r.sourceKey :=
  (Option.some_get _).symm

theorem field?_targetKey (r : Relation) : r.target.field? r.targetField = some r.targetKey :=
  (Option.some_get _).symm

/-- The table that the relation brings in below an identifier: its target, known by that identifier
and the relation's name. -/
def joinedTable (r : Relation) (parent : String) : TableRef :=
  .of r.target (some (Join.pathName parent r.name))

/-- The clause that the relation is joined by below an identifier: its target, known by that
identifier and the relation's name, where the target's field equals the source's field. -/
def clause (r : Relation) (parent : String) : JoinClause :=
  let own := Join.pathName parent r.name
  ⟨⟨r.target.table, some own⟩,
    .eq (.column (r.targetKey.columnIn own)) (.column (r.sourceKey.columnIn parent))⟩

end Relation

/-! ### Trees of relations -/

/-- A relation and the trees of relations that start where it leads to. -/
structure RelationTree where
  relation : Relation
  children : List RelationTree

namespace RelationTree

/-- The joins that are made from a tree: the one that a table has for the relation, with the joins
of the trees below attached one by one. -/
inductive Joins : RelationTree → Join → Prop
  | rel {t : Table} {name : String} {r : Relation} {j : Join} (hr : t.relation name = .ok r)
      (hj : t.rel name = .ok j) : Joins ⟨r, []⟩ j
  | innerJoin {tree below : RelationTree} {j k : Join} (hj : Joins tree j) (hk : Joins below k) :
      Joins ⟨tree.relation, tree.children ++ [below]⟩ (j.innerJoin k)

mutual

/-- Whether every relation of a tree starts at the model that it hangs below, the top at the given
one. -/
def Fits (m : Model) : RelationTree → Prop
  | ⟨r, children⟩ => r.source = m ∧ FitsAll r.target children

/-- Whether trees start at the model, and so on below. -/
def FitsAll (m : Model) : List RelationTree → Prop
  | [] => True
  | tree :: trees => tree.Fits m ∧ FitsAll m trees

end

mutual

/-- The relations of a tree, depth first from the top, each with the identifier that it hangs
below. -/
def nodes (parent : String) : RelationTree → List (String × Relation)
  | ⟨r, children⟩ => (parent, r) :: nodesAll (Join.pathName parent r.name) children

/-- The relations of trees below one identifier. -/
def nodesAll (parent : String) : List RelationTree → List (String × Relation)
  | [] => []
  | tree :: trees => tree.nodes parent ++ nodesAll parent trees

end

mutual

/-- The plan of the joins that are made from a tree. -/
def plan : RelationTree → Join.Plan
  | ⟨r, children⟩ => ⟨r.name, r.source.table, r.target, r.join.condition, planAll children⟩

/-- The plans of trees. -/
def planAll : List RelationTree → List Join.Plan
  | [] => []
  | tree :: trees => tree.plan :: planAll trees

end

theorem planAll_eq_map (trees : List RelationTree) : planAll trees = trees.map plan := by
  induction trees with
  | nil => rfl
  | cons tree trees ih => rw [planAll, List.map_cons, ih]

theorem fitsAll_iff {m : Model} {trees : List RelationTree} :
    FitsAll m trees ↔ ∀ tree ∈ trees, tree.Fits m := by
  induction trees with
  | nil => simp [FitsAll]
  | cons tree trees ih => simp [FitsAll, ih]

/-- Joins made from a tree are planned by it, whichever tables the relations were found on. -/
theorem Joins.plan_eq {tree : RelationTree} {j : Join} (h : tree.Joins j) : j.plan = tree.plan := by
  induction h with
  | @rel t name r j hr hj =>
    rw [Table.rel, hr] at hj
    cases hj
    exact Join.plan_rebase t.name r.join
  | @innerJoin tree below j k _ _ ihj ihk =>
    obtain ⟨r, children⟩ := tree
    rw [Join.plan_innerJoin, ihj, ihk]
    simp only [plan, Join.Plan.attach, planAll_eq_map, List.map_append, List.map_cons,
      List.map_nil]

mutual

/-- The identifier that a relation hangs below is the one at the top, or it is that of a relation
before it. -/
theorem parent_before (parent : String) : (tree : RelationTree) →
    ∀ {before after : List (String × Relation)} {node : String × Relation},
      tree.nodes parent = before ++ node :: after →
        node.1 = parent ∨ ∃ step ∈ before, node.1 = Join.pathName step.1 step.2.name
  | ⟨r, children⟩, before, after, node, h => by
    rw [nodes] at h
    cases before with
    | nil =>
      cases h
      exact Or.inl rfl
    | cons first before =>
      obtain ⟨rfl, hrest⟩ := List.cons.inj h
      refine Or.inr ?_
      obtain hown | ⟨step, hstep, heq⟩ :=
        parent_beforeAll (Join.pathName parent r.name) children hrest
      · exact ⟨(parent, r), List.mem_cons_self, hown⟩
      · exact ⟨step, List.mem_cons_of_mem _ hstep, heq⟩

/-- The same for trees below one identifier. -/
theorem parent_beforeAll (parent : String) : (trees : List RelationTree) →
    ∀ {before after : List (String × Relation)} {node : String × Relation},
      nodesAll parent trees = before ++ node :: after →
        node.1 = parent ∨ ∃ step ∈ before, node.1 = Join.pathName step.1 step.2.name
  | [], before, after, node, h => by simp [nodesAll] at h
  | tree :: trees, before, after, node, h => by
    rw [nodesAll] at h
    -- the relation stands in one of the later trees, or in the first
    obtain ⟨rest, rfl, hrest⟩ | ⟨rest, htree, hafter⟩ := List.append_eq_append_iff.mp h
    · obtain hparent | ⟨step, hstep, heq⟩ := parent_beforeAll parent trees hrest
      · exact Or.inl hparent
      · exact Or.inr ⟨step, List.mem_append_right _ hstep, heq⟩
    · cases rest with
      | nil =>
        -- the first tree is used up, so that the relation is the first of the later ones
        have hfirst : nodesAll parent trees = [] ++ node :: after := hafter.symm
        obtain hparent | ⟨step, hstep, -⟩ := parent_beforeAll parent trees hfirst
        · exact Or.inl hparent
        · cases hstep
      | cons first rest =>
        obtain ⟨rfl, -⟩ := List.cons.inj hafter
        exact parent_before parent tree htree

end

end RelationTree

/-! ### Walking the joins of a tree -/

/-- Below a table of the relation's source, the join of a relation is written as its clause. -/
theorem Relation.clause_eq_ok {r : Relation} {parent : TableRef} (h : r.source = parent.model)
    (children : List Join) :
    Join.clause parent ⟨r.name, r.source.table,
      r.joinedTable parent.identifier, r.join.condition, children⟩ =
        .ok (r.clause parent.identifier) := by
  have hright := TableRef.column_eq_ok (t := r.joinedTable parent.identifier) r.field?_targetKey
  have hleft := TableRef.column_eq_ok (t := parent) (h ▸ r.field?_sourceKey)
  have hcondition : r.join.condition parent (r.joinedTable parent.identifier) =
      .ok (r.clause parent.identifier).on :=
    bind_eq_ok_iff.mpr ⟨_, hright, bind_eq_ok_iff.mpr ⟨_, hleft, rfl⟩⟩
  have hplace : r.source.table = parent.table := congrArg Model.table h
  exact bind_eq_ok_iff.mpr ⟨_, (if_pos hplace).trans hcondition, rfl⟩

namespace RelationTree

mutual

/-- The joins that a tree plans are written as the clauses of its relations, depth first. -/
theorem mapM_clause_walk (parent : TableRef) : (tree : RelationTree) → tree.Fits parent.model →
    ((tree.plan.named parent.identifier).walk parent).mapM (fun step => step.2.clause step.1) =
      .ok ((tree.nodes parent.identifier).map fun node => node.2.clause node.1)
  | ⟨r, children⟩, ⟨hr, hchildren⟩ => by
    have hbelow := mapM_clause_walkAll (r.joinedTable parent.identifier) children hchildren
    rw [plan, Join.Plan.named, Join.walk, nodes]
    exact mapM_cons_eq_ok_iff.mpr ⟨_, _, Relation.clause_eq_ok hr _, hbelow, rfl⟩

theorem mapM_clause_walkAll (parent : TableRef) : (trees : List RelationTree) →
    FitsAll parent.model trees →
    (Join.walkAll parent (Join.Plan.namedAll parent.identifier (planAll trees))).mapM
        (fun step => step.2.clause step.1) =
      .ok ((nodesAll parent.identifier trees).map fun node => node.2.clause node.1)
  | [], _ => rfl
  | tree :: trees, ⟨htree, htrees⟩ => by
    rw [planAll, Join.Plan.namedAll, Join.walkAll, List.mapM_append,
      mapM_clause_walk parent tree htree, mapM_clause_walkAll parent trees htrees, nodesAll,
      List.map_append]
    rfl

end

/-- Joins made from trees and attached below an identifier are what the trees plan there. -/
theorem map_rebase (parent : String) {trees : List RelationTree} {joins : List Join}
    (h : List.Forall₂ Joins trees joins) :
    joins.map (Join.rebase parent) = Join.Plan.namedAll parent (planAll trees) := by
  induction h with
  | nil => rfl
  | cons hj _ ih =>
    rw [List.map_cons, planAll, Join.Plan.namedAll, Join.rebase_eq_named, hj.plan_eq, ih]

mutual

/-- The tables of a tree's joins are those that its relations bring in, depth first. -/
theorem tables_named (parent : String) : (tree : RelationTree) →
    (tree.plan.named parent).tables =
      (tree.nodes parent).map fun node => node.2.joinedTable node.1
  | ⟨r, children⟩ => by
    rw [plan, Join.Plan.named, Join.tables_eq_cons, tables_namedAll _ children, nodes,
      List.map_cons]
    rfl

theorem tables_namedAll (parent : String) : (trees : List RelationTree) →
    (Join.Plan.namedAll parent (planAll trees)).flatMap Join.tables =
      (nodesAll parent trees).map fun node => node.2.joinedTable node.1
  | [] => rfl
  | tree :: trees => by
    rw [planAll, Join.Plan.namedAll, List.flatMap_cons, tables_named parent tree,
      tables_namedAll parent trees, nodesAll, List.map_append]

end

end RelationTree

/-! ### The text of joins -/

/-- The text of a table, with its alias if it has one. -/
def SourceClause.text (ctx : Context) : SourceClause → String
  | ⟨table, none⟩ => ctx.quoting.apply table
  | ⟨table, some aliasName⟩ => ctx.quoting.apply table ++ " AS " ++ ctx.quoting.apply aliasName

/-- The text that a relation is joined by below an identifier. -/
def Relation.joinText (r : Relation) (parent : String) (ctx : Context) : String :=
  let own := parent ++ "_" ++ r.name
  " INNER JOIN " ++ ctx.quoting.apply r.target.table ++ " AS " ++ ctx.quoting.apply own ++
    " ON " ++ (r.targetKey.columnIn own).text ctx ++
    " = " ++ (r.sourceKey.columnIn parent).text ctx

/-- The table and the condition that are found where a relation is joined below an identifier. -/
def Relation.joinedOn (r : Relation) (parent : String) : SourceClause × List Token :=
  let own := parent ++ "_" ++ r.name
  (⟨r.target.table, some own⟩, [.name own, .dot, .name r.targetKey.column, .sign .equal,
    .name parent, .dot, .name r.sourceKey.column])

section Text

open Token

variable (ctx : Context) (index : Nat)

theorem SourceClause.textAfter_tokens (k : Keyword) (s : SourceClause) (rest : List Token) :
    textAfter ctx index (.keyword k) (s.tokens ++ rest) =
      " " ++ s.text ctx ++ textAfter ctx index (.name s.identifier) rest := by
  have has : " AS " = " " ++ ("AS" ++ " ") := by simp
  obtain ⟨table, _ | aliasName⟩ := s <;>
    simp [tokens, text, identifier, aliasTokens, textAfter, Token.text, Keyword.text, nextIndex,
      spaced, has, String.append_assoc, -String.reduceAppend]

theorem Relation.textAfter_clause (before : String) (r : Relation) (parent : String)
    (rest : List Token) :
    textAfter ctx index (.name before) ((r.clause parent).tokens ++ rest) =
      r.joinText parent ctx ++ textAfter ctx index (.name r.sourceKey.column) rest := by
  have hjoin : " INNER JOIN " = " " ++ ("INNER" ++ (" " ++ ("JOIN" ++ " "))) := by simp
  have has : " AS " = " " ++ ("AS" ++ " ") := by simp
  have hon : " ON " = " " ++ ("ON" ++ " ") := by simp
  have hequal : " = " = " " ++ ("=" ++ " ") := by simp
  have hclause : (r.clause parent).tokens = .keyword .INNER :: .keyword .JOIN ::
      .name r.target.table :: .keyword .AS :: .name (parent ++ "_" ++ r.name) :: .keyword .ON ::
        ((r.targetKey.columnIn (parent ++ "_" ++ r.name)).tokens ++ .sign .equal ::
          (r.sourceKey.columnIn parent).tokens) := rfl
  rw [hclause]
  simp only [List.cons_append, List.append_assoc, textAfter, textAfter_tokens_append, nextIndex,
    spaced, if_true, Token.text, Keyword.text, Sign.text]
  unfold Relation.joinText
  simp only [hjoin, has, hon, hequal, String.append_assoc, Field.columnIn]

theorem Relation.textAfter_clauses (before : String) (nodes : List (String × Relation)) :
    textAfter ctx index (.name before)
        (nodes.flatMap fun node => (node.2.clause node.1).tokens) =
      String.join (nodes.map fun node => node.2.joinText node.1 ctx) := by
  induction nodes generalizing before with
  | nil => rfl
  | cons node nodes ih =>
    rw [List.flatMap_cons, Relation.textAfter_clause, ih, List.map_cons, String.join_cons]

/-- Columns that are selected from a table are written in front of what stands behind it. -/
theorem Statement.textOf_columns (cols : List Column) (s : SourceClause) (rest : List Token) :
    textOf ctx (.keyword .SELECT :: commaSeparated (cols.map Column.tokens) ++
        .keyword .FROM :: (s.tokens ++ rest)) =
      "SELECT " ++ ", ".intercalate (cols.map (Column.text ctx)) ++ " FROM " ++ s.text ctx ++
        textAfter ctx 1 (.name s.identifier) rest := by
  have hselect : "SELECT " = "SELECT" ++ " " := by simp
  have hfrom : " FROM " = " " ++ ("FROM" ++ " ") := by simp
  have hindex : (Token.keyword .SELECT).nextIndex 1 = 1 := rfl
  rw [List.cons_append, textOf, hindex, textAfter_columnList, SourceClause.textAfter_tokens]
  simp [Token.text, Keyword.text, hselect, hfrom, String.append_assoc, -String.reduceAppend]

end Text

/-! ### What a text refers to -/

/-- The names that stand in front of a dot. -/
def Token.qualifiers : List Token → List String
  | name s :: dot :: ts => s :: qualifiers ts
  | _ :: ts => qualifiers ts
  | [] => []

/-- Whether what is found in a text refers to tables that the text brings in: the condition of a
join to the first table or to one that is joined up to there, and the select list to any. -/
structure Compiled.Scoped (mark : Char) (c : Compiled) : Prop where
  conditions : ∀ source sources before join after, c.sources mark = some (source :: sources) →
    c.joined mark = some (before ++ join :: after) → ∀ name ∈ Token.qualifiers join.2,
      name = source.identifier ∨ ∃ known ∈ before ++ [join], name = known.1.identifier
  entries : ∀ sources entries, c.sources mark = some sources →
    c.listIn mark [.SELECT] = some entries → ∀ entry ∈ entries,
      ∀ name ∈ Token.qualifiers entry, ∃ source ∈ sources, name = source.identifier

/-! ### The statement of trees of relations -/

namespace RelationTree

variable (t : TableRef) (trees : List RelationTree)

/-- The tables of a query on a table with trees of relations joined to it, first to last. -/
def tables : List TableRef :=
  t :: (nodesAll t.identifier trees).map fun node => node.2.joinedTable node.1

/-- The text of a query on a table with trees of relations joined to it: all columns of all tables,
and one join for each relation, depth first. -/
def text (ctx : Context) : String :=
  "SELECT " ++
    ", ".intercalate (((tables t trees).flatMap TableRef.columns).map (Column.text ctx)) ++
    " FROM " ++ t.clause.text ctx ++
    String.join ((nodesAll t.identifier trees).map fun node => node.2.joinText node.1 ctx)

/-- The statement of a query on a table with trees of relations joined to it. -/
def statement : Statement where
  items := (tables t trees).flatMap TableRef.outputs
  source := t.clause
  joins := (nodesAll t.identifier trees).map fun node => node.2.clause node.1
  filter := none
  groups := none
  groupFilter := none
  orders := []
  limit := none
  offset := none

theorem map_tokens_items : (statement t trees).items.map OutputItem.tokens =
    ((tables t trees).flatMap TableRef.columns).map Column.tokens := by
  rw [statement, TableRef.map_tokens_flatMap_outputs, List.map_flatMap]

theorem textOf_statement (ctx : Context) :
    Token.textOf ctx ((statement t trees).tokens ctx.dialect) = text t trees ctx := by
  have hjoins : (statement t trees).joins.flatMap JoinClause.tokens =
      (nodesAll t.identifier trees).flatMap fun node => (node.2.clause node.1).tokens := by
    rw [statement, List.flatMap_map]
  have htokens : (statement t trees).tokens ctx.dialect = .keyword .SELECT ::
      Token.commaSeparated (((tables t trees).flatMap TableRef.columns).map Column.tokens) ++
        .keyword .FROM :: (t.clause.tokens ++
          (nodesAll t.identifier trees).flatMap fun node => (node.2.clause node.1).tokens) := by
    rw [← map_tokens_items, ← hjoins]
    simp [Statement.tokens, statement, predicateTokens, Statement.groupTokens,
      Statement.orderTokens, Dialect.windowTokens]
  rw [htokens, Statement.textOf_columns, Relation.textAfter_clauses, text]

/-- Nothing is bound to the statement. -/
theorem bindings_statement (d : Dialect) :
    Token.bindings ((statement t trees).tokens d) = [] := by
  have hitems : (statement t trees).items.flatMap (fun i => i.expr.literals) = [] := by
    rw [statement, List.flatMap_assoc, List.flatMap_eq_nil_iff]
    exact fun u _ => u.literals_outputs
  have hjoins : (statement t trees).joins.flatMap (fun j => j.on.literals) = [] := by
    rw [statement, List.flatMap_map, List.flatMap_eq_nil_iff]
    exact fun node _ => rfl
  rw [Statement.bindings_tokens, hitems, hjoins]
  rfl

theorem render_statement (ctx : Context) :
    (statement t trees).render ctx = ⟨text t trees ctx, []⟩ := by
  rw [Statement.render, Token.render, textOf_statement, bindings_statement]

/-- What is found in the text of the statement: the columns of all its tables, the tables, and the
conditions of the joins, each of which refers to the relation's own table and to the one that it
hangs below. -/
theorem scoped_of_sources {t : TableRef} {trees : List RelationTree} {c : Compiled} {mark : Char}
    (hsources : c.sources mark = some ((tables t trees).map TableRef.clause))
    (hjoined : c.joined mark = some ((nodesAll t.identifier trees).map fun node =>
      node.2.joinedOn node.1))
    (hitems : c.listIn mark [.SELECT] =
      some (((tables t trees).flatMap TableRef.columns).map Column.tokens)) : c.Scoped mark := by
  constructor
  case conditions =>
    intro source sources before join after hsource hjoin name hname
    cases hsources.symm.trans hsource
    obtain ⟨known, rest, hnodes, rfl, hrest⟩ :=
      List.map_eq_append_iff.mp (Option.some.inj (hjoined.symm.trans hjoin))
    obtain ⟨node, later, rfl, rfl, -⟩ := List.map_eq_cons_iff.mp hrest
    have hnames : name = Join.pathName node.1 node.2.name ∨ name = node.1 := by
      simpa [Relation.joinedOn, Token.qualifiers, Join.pathName] using hname
    obtain rfl | rfl := hnames
    · exact Or.inr ⟨_, List.mem_append_right _ (List.mem_singleton.mpr rfl), rfl⟩
    · obtain hroot | ⟨step, hstep, heq⟩ := parent_beforeAll t.identifier trees hnodes
      · exact Or.inl hroot
      · exact Or.inr ⟨step.2.joinedOn step.1,
          List.mem_append_left _ (List.mem_map_of_mem hstep), heq⟩
  case entries =>
    intro sources entries hsource hentries entry hentry name hname
    cases hsources.symm.trans hsource
    cases hitems.symm.trans hentries
    obtain ⟨column, hcolumn, rfl⟩ := List.mem_map.mp hentry
    obtain ⟨u, hu, hcolumn⟩ := List.mem_flatMap.mp hcolumn
    rw [u.map_columnIn] at hcolumn
    obtain ⟨f, -, rfl⟩ := List.mem_map.mp hcolumn
    have hidentifier : name = u.identifier := List.mem_singleton.mp hname
    exact ⟨u.clause, List.mem_map_of_mem hu, hidentifier⟩

end RelationTree

/-! ### Queries on trees of relations -/

namespace Query

/-- The default select list has the columns of the query's table and of those that it joins. -/
theorem outputs_default {q : Query} (hq : q.selection = none)
    (hdefault : q.defaultSelection = .columns q.source :: q.joins.map .join) :
    q.outputs = .ok ((q.source :: q.joins.flatMap Join.tables).flatMap TableRef.outputs) := by
  have hselected : q.selected = .columns q.source :: q.joins.map .join := by
    rw [selected, hq, Option.getD_none, hdefault]
  have hjoins : (q.joins.map SelectItem.join).flatMap SelectItem.entries =
      (q.joins.flatMap Join.tables).flatMap TableRef.outputs := by
    rw [List.flatMap_map, List.flatMap_assoc]
    exact congrArg (q.joins.flatMap ·) (funext Join.outputs_eq_tables)
  have hwritten : ∀ item ∈ q.selected, item.outputs = .ok item.entries := by
    rw [hselected]
    refine List.forall_mem_cons.mpr ⟨rfl, List.forall_mem_map.mpr fun j _ => rfl⟩
  refine outputs_eq_ok_iff.mpr ⟨hselected ▸ List.cons_ne_nil _ _,
    q.selected.map SelectItem.entries, mapM_eq_ok_iff_map.mpr ?_, ?_⟩
  · rw [List.map_map]
    exact List.map_congr_left hwritten
  · rw [← List.flatMap_def, hselected, List.flatMap_cons, List.flatMap_cons, hjoins]
    rfl

/-- Calls that only attach joins change nothing else of a query. -/
theorem build_innerJoin (q : Query) (joins : List Join) : q.build (joins.map .innerJoin) =
    { q with
      defaultSelection := q.defaultSelection ++
        (joins.map (Join.rebase q.source.identifier)).map .join
      joins := q.joins ++ joins.map (Join.rebase q.source.identifier) } := by
  induction joins generalizing q with
  | nil => simp [build]
  | cons j joins ih =>
    have hstep : q.build ((j :: joins).map .innerJoin) =
      (q.innerJoin j).build (joins.map .innerJoin) := rfl
    rw [hstep, ih, innerJoin]
    simp

/-- A query on a table with joins made from trees of relations, each starting at the model that it
hangs below, comes to the statement of the trees. -/
theorem statement_trees {t : TableRef} {trees : List RelationTree} {joins : List Join}
    (hjoins : List.Forall₂ RelationTree.Joins trees joins)
    (hfits : ∀ tree ∈ trees, tree.Fits t.model) :
    ((ofTable t).build (joins.map .innerJoin)).statement =
      .ok (RelationTree.statement t trees) := by
  have hq : (ofTable t).build (joins.map .innerJoin) = { ofTable t with
      defaultSelection := .columns t ::
        (Join.Plan.namedAll t.identifier (RelationTree.planAll trees)).map .join
      joins := Join.Plan.namedAll t.identifier (RelationTree.planAll trees) } := by
    rw [← RelationTree.map_rebase t.identifier hjoins]
    exact build_innerJoin (ofTable t) joins
  have hclauses : ((ofTable t).build (joins.map .innerJoin)).joinClauses =
      .ok (RelationTree.statement t trees).joins := by
    rw [hq]
    exact RelationTree.mapM_clause_walkAll t trees (RelationTree.fitsAll_iff.mpr hfits)
  have hitems : ((ofTable t).build (joins.map .innerJoin)).outputs =
      .ok (RelationTree.statement t trees).items := by
    rw [hq, outputs_default rfl rfl, RelationTree.tables_namedAll]
    rfl
  rw [hq] at hclauses hitems ⊢
  exact statement_eq_ok_iff.mpr ⟨hitems, rfl, hclauses, rfl, rfl, rfl, rfl, rfl, rfl⟩

/-- What relations join is in scope. A query on a table with joins made from trees of relations,
each starting at the model that it hangs below, compiles for every context. Its text selects all
columns of all tables and joins one table for each relation, depth first, on the equality of the two
fields between its own table and the one that the relation hangs below, which is the first or has
been joined before. Where names stand between marks, this is what is found in the text: the tables,
the conditions and the entries of the select list, and all of them refer to tables that the text has
brought in. -/
theorem compile_scoped {t : TableRef} {trees : List RelationTree} {joins : List Join}
    (hjoins : List.Forall₂ RelationTree.Joins trees joins)
    (hfits : ∀ tree ∈ trees, tree.Fits t.model) :
    let nodes := RelationTree.nodesAll t.identifier trees
    let tables := RelationTree.tables t trees
    (∀ before node after, nodes = before ++ node :: after →
      node.1 = t.identifier ∨ ∃ step ∈ before, node.1 = step.1 ++ "_" ++ step.2.name) ∧
    ∀ ctx, ∃ c, ((ofTable t).build (joins.map .innerJoin)).compile ctx = .ok c ∧
      c = ⟨RelationTree.text t trees ctx, []⟩ ∧
      ∀ mark, ctx.quoting.mark? = some mark →
        c.listIn mark [.SELECT] = some ((tables.flatMap TableRef.columns).map Column.tokens) ∧
        c.sources mark = some (tables.map TableRef.clause) ∧
        c.joined mark = some (nodes.map fun node => node.2.joinedOn node.1) ∧
        c.Scoped mark := by
  intro nodes tables
  have hs := statement_trees hjoins hfits
  refine ⟨fun before node after hnodes =>
    RelationTree.parent_beforeAll t.identifier trees hnodes, fun ctx => ?_⟩
  refine ⟨(RelationTree.statement t trees).render ctx, by rw [compile, hs]; rfl,
    RelationTree.render_statement t trees ctx, fun mark hmark => ?_⟩
  have hlegible := legible_of_statement hs
  have hitems := hlegible.listIn_select hmark
  have hsources := hlegible.sources_render hmark
  have hjoined := hlegible.joined_render hmark
  rw [RelationTree.map_tokens_items] at hitems
  have hclauses : (RelationTree.statement t trees).joins.map JoinClause.source =
      (nodes.map fun node => node.2.joinedTable node.1).map TableRef.clause := by
    rw [RelationTree.statement, List.map_map, List.map_map]
    rfl
  have hconditions : (RelationTree.statement t trees).joins.map
      (fun j => (j.source, j.on.tokens)) = nodes.map fun node => node.2.joinedOn node.1 := by
    rw [RelationTree.statement, List.map_map]
    rfl
  rw [hclauses] at hsources
  rw [hconditions] at hjoined
  exact ⟨hitems, hsources, hjoined, RelationTree.scoped_of_sources hsources hjoined hitems⟩

/-- Comments below posts, beside the comments that hang from the users themselves. -/
theorem compile_scoped_comments :
    let key (name : String) : Field := ⟨name, .int .int64, name, rfl⟩
    let user : Model := ⟨"User", "users", [key "id"], by simp⟩
    let post : Model := ⟨"Post", "posts", [key "id", key "author"], by decide⟩
    let comment : Model := ⟨"Comment", "comments", [key "post", key "user"], by decide⟩
    let authored : Relation := ⟨"posts", user, post, "author", "id", rfl, rfl⟩
    let written : Relation := ⟨"comments", user, comment, "user", "id", rfl, rfl⟩
    let received : Relation := ⟨"comments", post, comment, "post", "id", rfl, rfl⟩
    let users : Table := ⟨user, [authored, written], by simp [authored, written]⟩
    let posts : Table := ⟨post, [received], by simp [received]⟩
    let trees : List RelationTree := [⟨authored, [⟨received, []⟩]⟩, ⟨written, []⟩]
    ∃ j k i, users.rel "posts" = .ok j ∧ posts.rel "comments" = .ok k ∧
      users.rel "comments" = .ok i ∧
      List.Forall₂ RelationTree.Joins trees [j.innerJoin k, i] ∧
      (∀ tree ∈ trees, tree.Fits user) ∧
      let c : Compiled := ⟨"SELECT \"u\".\"id\", \"u_posts\".\"id\", \"u_posts\".\"author\", " ++
        "\"u_posts_comments\".\"post\", \"u_posts_comments\".\"user\", " ++
        "\"u_comments\".\"post\", \"u_comments\".\"user\" FROM \"users\" AS \"u\"" ++
        " INNER JOIN \"posts\" AS \"u_posts\" ON \"u_posts\".\"author\" = \"u\".\"id\"" ++
        " INNER JOIN \"comments\" AS \"u_posts_comments\"" ++
        " ON \"u_posts_comments\".\"post\" = \"u_posts\".\"id\"" ++
        " INNER JOIN \"comments\" AS \"u_comments\" ON \"u_comments\".\"user\" = \"u\".\"id\"", []⟩
      ((users.queryAs "u").build ([j.innerJoin k, i].map .innerJoin)).compile
          (.ofDialect .sqlite) = .ok c ∧
        c.sources '"' = some [⟨"users", some "u"⟩, ⟨"posts", some "u_posts"⟩,
          ⟨"comments", some "u_posts_comments"⟩, ⟨"comments", some "u_comments"⟩] ∧
        c.joined '"' = some [
          (⟨"posts", some "u_posts"⟩, [.name "u_posts", .dot, .name "author", .sign .equal,
            .name "u", .dot, .name "id"]),
          (⟨"comments", some "u_posts_comments"⟩, [.name "u_posts_comments", .dot, .name "post",
            .sign .equal, .name "u_posts", .dot, .name "id"]),
          (⟨"comments", some "u_comments"⟩, [.name "u_comments", .dot, .name "user", .sign .equal,
            .name "u", .dot, .name "id"])] ∧
        c.Scoped '"' := by
  intro key user post comment authored written received users posts trees
  have hposts : users.rel "posts" = .ok (authored.join.rebase "users") := rfl
  have hreceived : posts.rel "comments" = .ok (received.join.rebase "posts") := rfl
  have hwritten : users.rel "comments" = .ok (written.join.rebase "users") := rfl
  have htrees : List.Forall₂ RelationTree.Joins trees
      [(authored.join.rebase "users").innerJoin (received.join.rebase "posts"),
        written.join.rebase "users"] :=
    .cons (.innerJoin (.rel (t := users) rfl hposts) (.rel (t := posts) rfl hreceived))
      (.cons (.rel (t := users) rfl hwritten) .nil)
  have hfits : ∀ tree ∈ trees, tree.Fits user := by
    simp [trees, RelationTree.Fits, RelationTree.FitsAll, authored, written, received]
  refine ⟨_, _, _, hposts, hreceived, hwritten, htrees, hfits, ?_⟩
  intro c
  obtain ⟨-, hcompile⟩ := compile_scoped (t := users.ref.aliased "u") htrees hfits
  obtain ⟨c', hc, htext, hread⟩ := hcompile (.ofDialect .sqlite)
  have hc' : c' = c := htext.trans (congrArg (Compiled.mk · []) (by decide +kernel))
  obtain ⟨-, hsources, hjoined, hscoped⟩ := hread '"' rfl
  rw [hc'] at hc hsources hjoined hscoped
  exact ⟨hc, hsources, hjoined, hscoped⟩

end Query

end SqlCompose
