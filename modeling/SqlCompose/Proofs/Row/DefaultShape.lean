import SqlCompose.Proofs.Query.Calls
import SqlCompose.Proofs.Query.Texts
import SqlCompose.Proofs.Row.Placement

/-!
# The default shape of rows

As long as no select list is chosen, a query reads all columns of all its tables: those of its own
table, and then those of the tables that are joined, depth first in the order in which the joins
were attached. This is the order in which the tables stand in the statement, so that a row holds
one record for each of them, in step. A join that is attached later adds its tables behind those
that are already there, and changes nothing else.

## Main definitions

* `Query.tables`: the tables of a query.
* `Compiled.GoesOn`: texts that differ in entries and joins behind those that both have.

## Main results

* `Query.parts_eq_tables`: a default select list has one part for each table.
* `Places.exists_records`, `Query.exists_records_of_materialize`: rows of tables hold one record for
  each of them.
* `Query.statement_innerJoin`, `Query.goesOn_innerJoin`: what attaching a join adds to a statement
  and to its text.
* `Query.build_defaultShape`: the tables of a statement, its select list and the records of a row
  are in step, however the query was built.
-/

namespace SqlCompose

/-! ### Tables -/

namespace Join

mutual

theorem parts_eq_tables : (j : Join) → j.parts = j.tables.map .columns
  | ⟨_, _, right, _, children⟩ => by
    rw [parts, tables_eq_cons, List.map_cons, partsAll_eq_tables children]

theorem partsAll_eq_tables : (js : List Join) → partsAll js = (js.flatMap tables).map .columns
  | [] => rfl
  | j :: js => by
    rw [partsAll, List.flatMap_cons, List.map_append, parts_eq_tables j, partsAll_eq_tables js]

end

theorem slots_eq_tables (j : Join) : j.slots = j.tables.map .table := by
  rw [slots_eq_parts, parts_eq_tables, List.map_map]
  rfl

end Join

namespace Query

/-- The tables of a query: its own, and those of its joins as they are walked. -/
def tables (q : Query) : List TableRef := q.source :: q.joins.flatMap Join.tables

/-- The tables of a query are those of its statement. -/
theorem Resolves.sources_eq {q : Query} {s : Statement} (h : q.Resolves s) :
    s.source :: s.joins.map JoinClause.source = q.tables.map TableRef.clause := by
  have hjoins : (Join.walkAll q.source q.joins).map (fun step => step.2.right.clause) =
      s.joins.map JoinClause.source := by
    rw [← List.forall₂_eq_eq_eq, List.forall₂_map_left_iff, List.forall₂_map_right_iff]
    refine h.joins.imp ?_
    rintro step clause ⟨e, -, rfl⟩
    rfl
  rw [h.source, ← hjoins, tables, List.map_cons, ← Join.map_right_walkAll q.source, List.map_map]
  rfl

/-- A default select list has one part for each table of the query. -/
theorem parts_eq_tables {q : Query} (hselection : q.selection = none)
    (hdefault : q.defaultSelection = .columns q.source :: q.joins.map .join) :
    q.parts = q.tables.map .columns := by
  have hjoins : (q.joins.map SelectItem.join).flatMap SelectItem.parts =
      (q.joins.flatMap Join.tables).map .columns := by
    rw [List.flatMap_map, List.map_flatMap]
    exact congrArg (q.joins.flatMap ·) (funext Join.parts_eq_tables)
  rw [parts, selected, hselection, Option.getD_none, hdefault, List.flatMap_cons, hjoins]
  rfl

end Query

theorem Part.written_columnsAll (ts : List TableRef) :
    written (ts.map .columns) = ts.flatMap fun t => t.columns.map Column.tokens := by
  rw [written, List.flatMap_map]
  exact TableRef.map_tokens_flatMap_outputs ts

/-- Rows of tables hold one record for each table. -/
theorem Places.exists_records {ts : List TableRef} {entries : List (List Token)}
    {row : List Value} {items : List Output} (h : Places (ts.map .columns) entries row items) :
    ∃ records, items = records.map .record ∧
      List.Forall₂ (fun (r : Record) t => r.model = t.model) records ts := by
  induction ts generalizing entries row items with
  | nil =>
    cases h
    exact ⟨[], rfl, .nil⟩
  | cons t ts ih =>
    rw [List.map_cons] at h
    cases h with
    | columns hr h =>
      obtain ⟨records, rfl, hmodels⟩ := ih h
      exact ⟨_ :: records, rfl, .cons hr.model_eq hmodels⟩

/-- A query that has one part for each table reads each row as one record for each table. -/
theorem Query.exists_records_of_materialize {q : Query} (hparts : q.parts = q.tables.map .columns)
    {rows : List (List Value)} {outputs : List Output} (h : q.materialize rows = .ok outputs) :
    outputs.length = rows.length ∧
      ∀ o ∈ outputs, ∃ records, o = Output.ofItems (records.map .record) ∧
        List.Forall₂ (fun (r : Record) t => r.model = t.model) records q.tables := by
  obtain ⟨hlen, hread⟩ := readRow_of_materialize h
  refine ⟨hlen, fun o ho => ?_⟩
  obtain ⟨i, hi, rfl⟩ := List.mem_iff_getElem.mp ho
  obtain ⟨items, hitems, hplaces⟩ := places_readRow (hread i rows[i] outputs[i]
    (List.getElem?_eq_getElem (hlen ▸ hi)) (List.getElem?_eq_getElem hi))
  rw [hparts] at hplaces
  obtain ⟨records, rfl, hmodels⟩ := hplaces.exists_records
  exact ⟨records, hitems, hmodels⟩

/-! ### One more join -/

namespace Query

/-- The tables that attaching a join adds to what a query reads: none if a select list is chosen. -/
def shown (q : Query) (j : Join) : List TableRef :=
  if q.selection.isNone then (j.rebase q.source.identifier).tables else []

theorem selected_innerJoin (q : Query) (j : Join) : (q.innerJoin j).selected = q.selected ++
    if q.selection.isNone then [.join (j.rebase q.source.identifier)] else [] := by
  cases hselection : q.selection with
  | none => simp [selected, innerJoin, hselection]
  | some items => simp [selected, innerJoin, hselection]

theorem tables_innerJoin (q : Query) (j : Join) :
    (q.innerJoin j).tables = q.tables ++ (j.rebase q.source.identifier).tables := by
  simp [tables, innerJoin]

theorem slots_innerJoin (q : Query) (j : Join) :
    (q.innerJoin j).slots = q.slots ++ (q.shown j).map .table := by
  rw [slots, selected_innerJoin, List.flatMap_append, shown]
  split
  · rw [List.flatMap_singleton, SelectItem.slots, Join.slots_eq_tables]
    rfl
  · rfl

theorem outputs_innerJoin {q : Query} (hdefault : q.defaultSelection ≠ []) {j : Join}
    {items : List OutputItem} (h : (q.innerJoin j).outputs = .ok items) :
    ∃ before, q.outputs = .ok before ∧
      items = before ++ (q.shown j).flatMap TableRef.outputs := by
  obtain ⟨hne, parts, hparts, rfl⟩ := outputs_eq_ok_iff.mp h
  rw [selected_innerJoin] at hne hparts
  obtain ⟨before, more, hbefore, hmore, rfl⟩ := mapM_append_eq_ok_iff.mp hparts
  have hselected : q.selected ≠ [] := by
    cases hselection : q.selection with
    | none =>
      rw [selected, hselection]
      exact hdefault
    | some items =>
      rw [hselection] at hne
      exact fun hnil => hne (by rw [hnil]; rfl)
  have hflat : more.flatten = (q.shown j).flatMap TableRef.outputs := by
    rw [shown]
    split at hmore
    · next hnone =>
      cases hmore
      rw [if_pos hnone, ← Join.outputs_eq_tables]
      exact List.append_nil _
    · next hsome =>
      cases hmore
      rw [if_neg hsome]
      rfl
  refine ⟨before.flatten, outputs_eq_ok_iff.mpr ⟨hselected, before, hbefore, rfl⟩, ?_⟩
  rw [List.flatten_append, hflat]

theorem joinClauses_innerJoin {q : Query} {j : Join} {joins : List JoinClause}
    (h : (q.innerJoin j).joinClauses = .ok joins) :
    ∃ before clauses, q.joinClauses = .ok before ∧
      List.Forall₂ (fun step clause => step.2.Writes step.1 clause)
        ((j.rebase q.source.identifier).walk q.source) clauses ∧ joins = before ++ clauses := by
  have hwalk : Join.walkAll q.source (q.innerJoin j).joins = Join.walkAll q.source q.joins ++
      (j.rebase q.source.identifier).walk q.source := by
    simp [Join.walkAll_eq_flatMap, innerJoin]
  have hsource : (q.innerJoin j).source = q.source := rfl
  rw [joinClauses, hsource, hwalk] at h
  obtain ⟨before, clauses, hbefore, hclauses, rfl⟩ := mapM_append_eq_ok_iff.mp h
  exact ⟨before, clauses, hbefore,
    (mapM_eq_ok_iff_forall₂.mp hclauses).imp fun _ _ => Join.writes_of_clause, rfl⟩

/-- A statement with one more join has all that it had without the join, and behind that the
clauses of the join's tree, depth first from the top. -/
theorem statement_innerJoin {q : Query} (hdefault : q.defaultSelection ≠ []) {j : Join}
    {s' : Statement} (h : (q.innerJoin j).statement = .ok s') :
    ∃ s clauses, q.statement = .ok s ∧
      List.Forall₂ (fun step clause => step.2.Writes step.1 clause)
        ((j.rebase q.source.identifier).walk q.source) clauses ∧
      s' = { s with
        items := s.items ++ (q.shown j).flatMap TableRef.outputs
        joins := s.joins ++ clauses } := by
  obtain ⟨hi, hs, hj, hf, hg, hgf, ho, hl, hk⟩ := statement_eq_ok_iff.mp h
  obtain ⟨items, hitems, hitems'⟩ := outputs_innerJoin hdefault hi
  obtain ⟨joins, clauses, hjoins, hclauses, hjoins'⟩ := joinClauses_innerJoin hj
  refine ⟨{ s' with items := items, joins := joins }, clauses, ?_, hclauses, ?_⟩
  · exact statement_eq_ok_iff.mpr ⟨hitems, hs, hjoins, hf, hg, hgf, ho, hl, hk⟩
  · cases s'
    cases hitems'
    cases hjoins'
    rfl

end Query

/-- Whether the sections of a text are those of another one, but for entries at the end of the
select list and joins behind those that are there. -/
def Compiled.GoesOn (mark : Char) (c c' : Compiled) (entries : List (List Token))
    (joins : List (SourceClause × List Token)) : Prop :=
  ∃ list list' source before added later,
    c.sections mark = some ((.keyword .SELECT :: list) :: source :: (before ++ later)) ∧
    c'.sections mark = some ((.keyword .SELECT :: list') :: source :: (before ++ added ++ later)) ∧
    Token.entries list' = Token.entries list ++ entries ∧
    added.map Token.joinIn = joins.map some

/-- What a join below a table is found as in a text: its table, with the tokens of its condition
between the two. -/
def Join.FoundAs (parent : TableRef) (j : Join) (found : SourceClause × List Token) : Prop :=
  ∃ e, j.predicate parent = .ok e ∧ found = (j.right.clause, e.tokens)

namespace Query

/-- The text of a query with one more join goes on from the text without it. -/
theorem goesOn_innerJoin {q : Query} (hdefault : q.defaultSelection ≠ []) {j : Join}
    {ctx : Context} {mark : Char} (hmark : ctx.quoting.mark? = some mark) {c' : Compiled}
    (h : (q.innerJoin j).compile ctx = .ok c') :
    ∃ c joins, q.compile ctx = .ok c ∧
      List.Forall₂ (fun step found => step.2.FoundAs step.1 found)
        ((j.rebase q.source.identifier).walk q.source) joins ∧
      c.GoesOn mark c' ((q.shown j).flatMap fun u => u.columns.map Column.tokens) joins := by
  obtain ⟨s', hs', rfl⟩ := exists_statement h
  obtain ⟨s, clauses, hs, hclauses, rfl⟩ := statement_innerJoin hdefault hs'
  have hlegible := legible_of_statement hs
  have hlegible' := legible_of_statement hs'
  have hitems := OutputItem.entries_tokens hlegible.items
  have hitems' := OutputItem.entries_tokens hlegible'.items
  have hsections := hlegible'.sections_render hmark
  have hjoins : (s.joins ++ clauses).map JoinClause.tokens =
      s.joins.map JoinClause.tokens ++ clauses.map JoinClause.tokens := List.map_append
  rw [hjoins] at hsections
  refine ⟨s.render ctx, clauses.map fun clause => (clause.source, clause.on.tokens),
    by rw [compile, hs]; rfl, ?_, _, _, _, _, _, _, hlegible.sections_render hmark, hsections,
    ?_, ?_⟩
  · rw [List.forall₂_map_right_iff]
    refine hclauses.imp ?_
    rintro step clause ⟨e, he, rfl⟩
    exact ⟨e, he, rfl⟩
  · rw [hitems, hitems', List.map_append, TableRef.map_tokens_flatMap_outputs]
  · rw [List.map_map, List.map_map]
    exact List.map_congr_left fun clause _ => Statement.joinIn_join clause

/-- The tables of a query on a table, its select list and its rows are in step, however it was
built. Its default select list is the columns of its table and its joins, as they were attached.
While none other is chosen, the tables of the statement are those of the query, the entries of the
select list are their columns, table by table, and each row that is read holds one record for each
table, of its model; and where names stand between marks, the tables and the entries are found so
in the text. One more join adds its tables behind those that are there, depth first from the top:
to the clauses of the statement and, while no select list is chosen, to the select list and to the
slots of a row. What is found in the text is then what was found without the join, and behind that
the join's own. -/
theorem build_defaultShape (t : TableRef) (calls : List Call) :
    let q := (ofTable t).build calls
    q.defaultSelection = .columns t :: q.joins.map .join ∧
    q.joins = (attached calls).map (Join.rebase t.identifier) ∧
    (q.selection = none → ∀ ctx c, q.compile ctx = .ok c →
      (∃ s, q.statement = .ok s ∧ c = Token.render ctx (s.tokens ctx.dialect) ∧
        Token.sources (s.tokens ctx.dialect) = q.tables.map TableRef.clause ∧
        Token.selectEntries (s.tokens ctx.dialect) =
          q.tables.flatMap (fun u => u.columns.map Column.tokens)) ∧
      (∀ mark, ctx.quoting.mark? = some mark →
        c.sources mark = some (q.tables.map TableRef.clause) ∧
        c.listIn mark [.SELECT] =
          some (q.tables.flatMap fun u => u.columns.map Column.tokens)) ∧
      ∀ rows outputs, q.materialize rows = .ok outputs → outputs.length = rows.length ∧
        ∀ o ∈ outputs, ∃ records, o = Output.ofItems (records.map .record) ∧
          List.Forall₂ (fun (r : Record) u => r.model = u.model) records q.tables) ∧
    ∀ j, (q.innerJoin j).tables = q.tables ++ (j.rebase t.identifier).tables ∧
      (q.innerJoin j).slots = q.slots ++ (q.shown j).map .table ∧
      (∀ s', (q.innerJoin j).statement = .ok s' → ∃ s clauses, q.statement = .ok s ∧
        List.Forall₂ (fun step clause => step.2.Writes step.1 clause)
          ((j.rebase t.identifier).walk t) clauses ∧
        s' = { s with
          items := s.items ++ (q.shown j).flatMap TableRef.outputs
          joins := s.joins ++ clauses }) ∧
      ∀ ctx mark c', ctx.quoting.mark? = some mark → (q.innerJoin j).compile ctx = .ok c' →
        ∃ c joins, q.compile ctx = .ok c ∧
          List.Forall₂ (fun step found => step.2.FoundAs step.1 found)
            ((j.rebase t.identifier).walk t) joins ∧
          c.GoesOn mark c' ((q.shown j).flatMap fun u => u.columns.map Column.tokens) joins := by
  intro q
  have hsource : q.source = t := source_build (ofTable t) calls
  have hdefault : q.defaultSelection = .columns t :: q.joins.map .join :=
    defaultSelection_build_ofTable t calls
  have hne : q.defaultSelection ≠ [] := hdefault ▸ List.cons_ne_nil _ _
  refine ⟨hdefault, joins_build (ofTable t) calls, fun hselection ctx c hc => ?_, fun j => ?_⟩
  · obtain ⟨s, hs, rfl⟩ := exists_statement hc
    have hlegible := legible_of_statement hs
    have hparts := parts_eq_tables hselection (hsource.symm ▸ hdefault)
    have hsources := (resolves_of_statement hs).sources_eq
    have hentries : s.items.map OutputItem.tokens =
        q.tables.flatMap fun u => u.columns.map Column.tokens := by
      obtain ⟨hi, -⟩ := statement_eq_ok_iff.mp hs
      rw [items_eq_parts hi, hparts, ← Part.written, Part.written_columnsAll]
    refine ⟨⟨s, hs, rfl, ?_, ?_⟩, fun mark hmark => ⟨?_, ?_⟩, fun rows outputs hrows => ?_⟩
    · rw [Statement.sources_tokens hlegible.orders, hsources]
    · rw [Statement.selectEntries_tokens, hentries]
    · rw [hlegible.sources_render hmark, hsources]
    · rw [hlegible.listIn_select hmark, hentries]
    · exact exists_records_of_materialize hparts hrows
  · rw [← hsource]
    exact ⟨tables_innerJoin q j, slots_innerJoin q j, fun s' hs' => statement_innerJoin hne hs',
      fun ctx mark c' hmark hc' => goesOn_innerJoin hne hmark hc'⟩

/-- A tree of two joins among other calls, a row of its three tables, and a join behind it. -/
theorem build_defaultShape_nested :
    let field : Field := ⟨"id", .int .int64, "id", rfl⟩
    let model (name : String) : Model := ⟨name, name, [field], by simp⟩
    let record (name : String) (id : Scalar) (h : Model.admits [field] [id] = true) : Record :=
      ⟨model name, [id], h⟩
    let on (name left : String) := Join.on name left (.ofModel (model name)) fun _ _ =>
      .ok (.literal (.bool true))
    let tree := (on "posts" "users").innerJoin (on "comments" "posts")
    let calls := [Call.filter (.literal (.bool true)), .innerJoin tree, .withLimit 2]
    let q := (ofTable (.ofModel (model "users"))).build calls
    let c : Compiled := ⟨"SELECT \"users\".\"id\", \"users_posts\".\"id\", " ++
      "\"users_posts_comments\".\"id\" FROM \"users\"" ++
      " INNER JOIN \"posts\" AS \"users_posts\" ON $1" ++
      " INNER JOIN \"comments\" AS \"users_posts_comments\" ON $2 WHERE $3 LIMIT 2",
      [.bool true, .bool true, .bool true]⟩
    let c' : Compiled := ⟨"SELECT \"users\".\"id\", \"users_posts\".\"id\", " ++
      "\"users_posts_comments\".\"id\", \"users_tags\".\"id\" FROM \"users\"" ++
      " INNER JOIN \"posts\" AS \"users_posts\" ON $1" ++
      " INNER JOIN \"comments\" AS \"users_posts_comments\" ON $2" ++
      " INNER JOIN \"tags\" AS \"users_tags\" ON $3 WHERE $4 LIMIT 2",
      [.bool true, .bool true, .bool true, .bool true]⟩
    q.selection = none ∧ q.compile (.ofDialect .postgresql) = .ok c ∧
      c.sources '"' = some [⟨"users", none⟩, ⟨"posts", some "users_posts"⟩,
        ⟨"comments", some "users_posts_comments"⟩] ∧
      c.listIn '"' [.SELECT] = some [[.name "users", .dot, .name "id"],
        [.name "users_posts", .dot, .name "id"],
        [.name "users_posts_comments", .dot, .name "id"]] ∧
      q.materialize [[.integer 1, .integer 2, .integer 3]] = .ok [.tuple [
        .record (record "users" (.int 1) rfl), .record (record "posts" (.int 2) rfl),
        .record (record "comments" (.int 3) rfl)]] ∧
      (q.innerJoin (on "tags" "users")).compile (.ofDialect .postgresql) = .ok c' ∧
      c.GoesOn '"' c' [[.name "users_tags", .dot, .name "id"]]
        [(⟨"tags", some "users_tags"⟩, [.bound (.bool true)])] := by
  intro field model record on tree calls q c c'
  obtain ⟨-, -, hdefault, hjoin⟩ := build_defaultShape (.ofModel (model "users")) calls
  have hc : q.compile (.ofDialect .postgresql) = .ok c :=
    congrArg Except.ok (show _ = c by decide +kernel)
  have hc' : (q.innerJoin (on "tags" "users")).compile (.ofDialect .postgresql) = .ok c' :=
    congrArg Except.ok (show _ = c' by decide +kernel)
  obtain ⟨-, hread, -⟩ := hdefault rfl _ c hc
  obtain ⟨hsources, hlist⟩ := hread '"' rfl
  obtain ⟨-, -, -, hgoes⟩ := hjoin (on "tags" "users")
  obtain ⟨c₁, joins, hc₁, hjoins, hgoes⟩ := hgoes _ '"' c' rfl hc'
  cases hc.symm.trans hc₁
  -- the tree of the join is one table, whose condition is known
  obtain ⟨found, _, ⟨e, he, rfl⟩, hnil, rfl⟩ := List.forall₂_cons_left_iff.mp hjoins
  obtain rfl := List.forall₂_nil_left_iff.mp hnil
  cases he
  exact ⟨rfl, hc, hsources, hlist, rfl, hc', hgoes⟩

end Query

end SqlCompose
