import SqlCompose.Proofs.Loader.Grouping
import SqlCompose.Proofs.Query.Placeholders
import SqlCompose.Proofs.Query.Scoping
import SqlCompose.Proofs.Row.Fields
import SqlCompose.Proofs.Schema.Declarations
import SqlCompose.Proofs.Sql.Reference

/-!
# The statements of a batch

The query of a relation for some parents is determined by the two models and the parents' keys, and
is written as one statement whose text depends on the keys by their number only. A relation has no
query for parents of a model that it does not start at, and a batch with such a relation ends before
anything is sent. Otherwise every relation of the batch has its query, and what a batch that comes
to maps has sent are these statements, in the order of the relations.

## Main definitions

* `Relation.keys`, `Relation.keyQuery`: the keys of parents, and the query for them.
* `Relation.Rejects`: parents that a relation can not be loaded for.
* `Relation.batchText`: the text of the query.

## Main results

* `Relation.batchQuery_eq_ok`, `Relation.exists_error_of_rejects`: when there is a query.
* `Relation.compile_keyQuery`: the statement of a relation's query, in every context.
* `Loader.sent_load`: what a batch that comes to maps has sent.
* `Table.loader_statements`: the queries and the statements of the loaders of a declared table.
-/

namespace SqlCompose

/-! ### The text of a list of bound values -/

namespace Token

variable (ctx : Context)

/-- Bound values with commas between them, up to a closing parenthesis. -/
theorem textAfter_bounds (before : Token) (index : Nat) (v : Value) (vs : List Value)
    (rest : List Token) :
    textAfter ctx index before
        (commaSeparated ((v :: vs).map fun v => [bound v]) ++ closing :: rest) =
      (if spaced before (.bound v) then " " else "") ++
        ", ".intercalate ((List.range (v :: vs).length).map fun i =>
          ctx.dialect.placeholder (index + i)) ++ ")" ++
        textAfter ctx (index + (v :: vs).length) .closing rest := by
  induction vs generalizing before index v with
  | nil => simp [commaSeparated, textAfter, text, nextIndex, spaced, String.append_assoc]
  | cons w ws ih =>
    have hlist : commaSeparated ((v :: w :: ws).map fun v => [bound v]) =
        bound v :: comma :: commaSeparated ((w :: ws).map fun v => [bound v]) := rfl
    have hcomma (us : List Token) : textAfter ctx index before (bound v :: comma :: us) =
        (if spaced before (bound v) then " " else "") ++ ctx.dialect.placeholder index ++ "," ++
          textAfter ctx (index + 1) comma us := by
      simp [textAfter, text, nextIndex, spaced, String.append_assoc]
    have hrange : (List.range (v :: w :: ws).length).map
          (fun i => ctx.dialect.placeholder (index + i)) =
        ctx.dialect.placeholder index :: (List.range (w :: ws).length).map
          (fun i => ctx.dialect.placeholder (index + 1 + i)) := by
      rw [List.length_cons (a := v), List.range_succ_eq_map, List.map_cons, List.map_map]
      refine congrArg _ (List.map_congr_left fun i _ => ?_)
      exact congrArg ctx.dialect.placeholder (by omega)
    have hne : (List.range (w :: ws).length).map
        (fun i => ctx.dialect.placeholder (index + 1 + i)) ≠ [] := by simp
    have hspace : spaced comma (bound w) = true := rfl
    have hnext : index + 1 + (w :: ws).length = index + (v :: w :: ws).length := by
      simp only [List.length_cons]
      omega
    rw [hlist, List.cons_append, List.cons_append, hcomma, ih, hrange, hspace, if_pos rfl, hnext,
      String.intercalate_cons_of_ne_nil hne]
    simp only [String.append_assoc, comma_space]

end Token

/-! ### The query of a relation -/

namespace Relation

/-- The values of the parents' source fields, in the order of the parents. -/
def keys (r : Relation) (parents : List Record) : List Value :=
  parents.filterMap fun parent => parent.valueOf r.sourceField

/-- The column of the target that the parents' keys are looked up in. -/
def keyColumn (r : Relation) (m : Model) : Column :=
  r.targetKey.columnIn (Join.pathName m.table r.name)

/-- The query for the records whose key is one of the parents'. -/
def keyQuery (r : Relation) (m : Model) (parents : List Record) : Query :=
  (Query.ofTable (r.batchSource m)).filter
    (.inList (.column (r.keyColumn m)) ((r.keys parents).map .literal) true)

/-- Whether a relation can not be loaded for parents: it starts at the table of another model, or
there are parents and they do not have its source field. -/
def Rejects (r : Relation) (m : Model) (parents : List Record) : Prop :=
  r.source.table ≠ m.table ∨ parents ≠ [] ∧ m.hasField r.sourceField = false

/-- A relation is rejected for no records of the model that it starts at. -/
theorem not_rejects_source (r : Relation) (parents : List Record) :
    ¬r.Rejects r.source parents := by
  rintro (htable | ⟨-, hfield⟩)
  · exact htable rfl
  · rw [r.hasField_source] at hfield
    cases hfield

variable {r : Relation} {m : Model} {parents : List Record}

theorem hasField_of_not_rejects (hparents : parents ≠ []) (h : ¬r.Rejects m parents) :
    m.hasField r.sourceField = true := by
  rw [← Bool.not_eq_false]
  exact fun hfield => h (.inr ⟨hparents, hfield⟩)

/-- Every parent of a model with the source field has a key, at its place. -/
theorem forall₂_keys (hmodel : ∀ parent ∈ parents, parent.model = m)
    (hfield : m.hasField r.sourceField = true) :
    List.Forall₂ (fun parent key => parent.valueOf r.sourceField = some key)
      parents (r.keys parents) := by
  induction parents with
  | nil => exact .nil
  | cons parent parents ih =>
    obtain ⟨hparent, hparents⟩ := List.forall_mem_cons.mp hmodel
    have hsome : (parent.valueOf r.sourceField).isSome = true := by
      rw [parent.isSome_valueOf, hparent, hfield]
    obtain ⟨key, hkey⟩ := Option.isSome_iff_exists.mp hsome
    have hcons : r.keys (parent :: parents) = key :: r.keys parents := by
      simp only [keys, List.filterMap_cons, hkey]
    rw [hcons]
    exact .cons hkey (ih hparents)

theorem keys_ne_nil (hmodel : ∀ parent ∈ parents, parent.model = m)
    (hfield : m.hasField r.sourceField = true) (hparents : parents ≠ []) : r.keys parents ≠ [] := by
  rw [← List.length_pos_iff, ← (forall₂_keys hmodel hfield).length_eq]
  exact List.length_pos_iff.mpr hparents

theorem keysOf_eq_ok (hmodel : ∀ parent ∈ parents, parent.model = m)
    (hfield : m.hasField r.sourceField = true) :
    r.keysOf m parents = .ok ((r.keys parents).map .literal) := by
  refine mapM_eq_ok_iff_forall₂.mpr ?_
  rw [List.forall₂_map_right_iff]
  refine (forall₂_keys hmodel hfield).imp fun parent key hkey => ?_
  rw [hkey]

/-- A relation that is rejected has no query, whatever the parents hold. -/
theorem exists_error_of_rejects (hmodel : ∀ parent ∈ parents, parent.model = m)
    (h : r.Rejects m parents) : ∃ e, r.batchQuery m parents = .error e := by
  rw [batchQuery]
  rcases h with htable | ⟨hparents, hfield⟩
  · exact ⟨_, if_pos htable⟩
  · split
    · exact ⟨_, rfl⟩
    · rw [if_neg (mt List.isEmpty_iff.mp hparents)]
      obtain ⟨parent, hparent⟩ := List.exists_mem_of_ne_nil parents hparents
      have hnone : parent.valueOf r.sourceField = none := by
        rw [← Option.not_isSome_iff_eq_none, parent.isSome_valueOf, hmodel parent hparent, hfield]
        exact Bool.false_ne_true
      cases hkeys : r.keysOf m parents with
      | error e => exact ⟨e, rfl⟩
      | ok keys =>
        obtain ⟨e, he⟩ := exists_of_mem_of_mapM hkeys parent hparent
        rw [hnone] at he
        cases he

theorem column_batchSource (r : Relation) (m : Model) :
    (r.batchSource m).column r.targetField = .ok (r.keyColumn m) :=
  TableRef.column_eq_ok (t := r.batchSource m) r.field?_targetKey

/-- A relation that is not rejected has its query, and none if there is no parent. -/
theorem batchQuery_eq_ok (hmodel : ∀ parent ∈ parents, parent.model = m)
    (h : ¬r.Rejects m parents) : r.batchQuery m parents =
      .ok (if parents.isEmpty then none else some (r.keyQuery m parents)) := by
  rw [batchQuery, if_neg (mt Or.inl h)]
  by_cases hparents : parents = []
  · subst hparents
    rfl
  · have hfield := hasField_of_not_rejects hparents h
    have hkeys := keysOf_eq_ok hmodel hfield
    have hone : (Expr.column (r.keyColumn m)).oneOf ((r.keys parents).map .literal) =
        .ok (.inList (.column (r.keyColumn m)) ((r.keys parents).map .literal) true) := by
      refine if_neg fun hempty => keys_ne_nil hmodel hfield hparents ?_
      rwa [List.isEmpty_iff, List.map_eq_nil_iff] at hempty
    have hempty : parents.isEmpty = false := by simpa using hparents
    simp only [hempty, hkeys, column_batchSource, hone, bind, Except.bind, pure, Except.pure]
    rfl

/-! ### The statement of a relation's query -/

/-- The column of a field of the target, which is known by the parents' table and the relation's
name. -/
def targetColumn (r : Relation) (m : Model) (f : Field) : Column :=
  f.columnIn (m.table ++ "_" ++ r.name)

/-- The statement that loads the relation for parents with the given number of keys: all columns of
the target, known by the parents' table and the relation's name, where its key is one of as many
placeholders. -/
def batchText (r : Relation) (m : Model) (count : Nat) (ctx : Context) : String :=
  "SELECT " ++ ", ".intercalate (r.target.fields.map fun f => (r.targetColumn m f).text ctx) ++
    " FROM " ++ ctx.quoting.apply r.target.table ++
    " AS " ++ ctx.quoting.apply (m.table ++ "_" ++ r.name) ++
    " WHERE " ++ (r.targetColumn m r.targetKey).text ctx ++
    " IN (" ++ ", ".intercalate (ctx.dialect.placeholders count) ++ ")"

theorem statement_keyQuery (h : r.keys parents ≠ []) : (r.keyQuery m parents).statement = .ok {
    items := (r.batchSource m).outputs
    source := (r.batchSource m).clause
    joins := []
    filter := some (.inList (.column (r.keyColumn m)) ((r.keys parents).map .literal) true)
    groups := none
    groupFilter := none
    orders := []
    limit := none
    offset := none } := by
  have hcandidates : (Expr.inList (.column (r.keyColumn m)) ((r.keys parents).map .literal)
      true).hasEmptyIn = false := by
    rw [Expr.hasEmptyIn, Expr.anyEmptyIn_eq_any]
    simp [h, Expr.hasEmptyIn]
  refine Query.statement_eq_ok_iff.mpr
    ⟨congrArg Except.ok (List.append_nil _), rfl, rfl, ?_, rfl, rfl, rfl, rfl, rfl⟩
  exact map_eq_ok_iff.mpr ⟨_, if_neg (Bool.eq_false_iff.mp hcandidates), rfl⟩

theorem exists_fields (r : Relation) : ∃ f fs, r.target.fields = f :: fs := by
  obtain ⟨f, hf⟩ := Option.isSome_iff_exists.mp (Model.isSome_field? r.hasField_target)
  exact List.exists_cons_of_ne_nil (List.ne_nil_of_mem (List.mem_of_find?_eq_some hf))

theorem literals_keyQuery (r : Relation) (m : Model) (parents : List Record) :
    (r.keyQuery m parents).literals = r.keys parents := by
  have hcandidates (vs : List Value) : Expr.literalsEach (vs.map .literal) = vs := by
    induction vs with
    | nil => rfl
    | cons v vs ih => exact congrArg (v :: ·) ih
  have hliterals : (r.keyQuery m parents).literals =
      Expr.literalsEach ((r.keys parents).map .literal) ++ [] ++ [] ++ [] ++ [] := rfl
  simp only [hliterals, hcandidates, List.append_nil]

/-- The tokens of the statement, with the clauses spelled out. -/
private theorem tokens_keyQuery {f : Field} {fs : List Field} {v : Value} {vs : List Value}
    (hfields : r.target.fields = f :: fs) (hkeys : r.keys parents = v :: vs) {s : Statement}
    (hs : (r.keyQuery m parents).statement = .ok s) (d : Dialect) :
    s.tokens d = .keyword .SELECT :: (Token.commaSeparated
        ((r.targetColumn m f :: fs.map (r.targetColumn m)).map Column.tokens) ++
      .keyword .FROM :: .name r.target.table :: .keyword .AS ::
        .name (Join.pathName m.table r.name) :: .keyword .WHERE :: ((r.keyColumn m).tokens ++
      .keyword .IN :: .opening ::
        (Token.commaSeparated ((v :: vs).map fun v => [.bound v]) ++ [.closing]))) := by
  cases (statement_keyQuery (hkeys ▸ List.cons_ne_nil v vs)).symm.trans hs
  have hitems : (r.batchSource m).outputs.map OutputItem.tokens =
      (r.targetColumn m f :: fs.map (r.targetColumn m)).map Column.tokens := by
    rw [TableRef.map_tokens_outputs, TableRef.map_columnIn]
    exact congrArg (fun fields => (List.map _ fields).map Column.tokens) hfields
  have hcandidates : Expr.tokensEach ((v :: vs).map .literal) =
      (v :: vs).map fun v => [.bound v] := by
    rw [Expr.tokensEach_eq_map, List.map_map]
    rfl
  simp only [Statement.tokens, hitems, hkeys, predicateTokens, Expr.tokens, hcandidates]
  simp [Statement.groupTokens, Statement.orderTokens, Dialect.windowTokens,
    SourceClause.tokens, aliasTokens, TableRef.clause, batchSource, TableRef.of, TableRef.table,
    Expr.groupedBelow, Expr.strength, Expr.polarity, Token.grouped]

theorem text_keyQuery (h : r.keys parents ≠ []) (ctx : Context) {s : Statement}
    (hs : (r.keyQuery m parents).statement = .ok s) :
    Token.textOf ctx (s.tokens ctx.dialect) = r.batchText m (r.keys parents).length ctx := by
  obtain ⟨f, fs, hfields⟩ := r.exists_fields
  obtain ⟨v, vs, hkeys⟩ := List.exists_cons_of_ne_nil h
  have hspaced {k : Keyword} (s : String) : Token.spaced (.keyword k) (.name s) = true := rfl
  rw [tokens_keyQuery hfields hkeys hs, Token.textOf, Token.textAfter_columns ctx hspaced]
  simp only [Token.textAfter, Token.spaced, Token.nextIndex, Token.text,
    Token.textAfter_column ctx hspaced, Token.textAfter_bounds]
  have hcolumns : (r.targetColumn m f :: fs.map (r.targetColumn m)).map
      (Column.text ctx) = r.target.fields.map fun f => (r.targetColumn m f).text ctx := by
    rw [hfields, List.map_cons, List.map_map, List.map_cons]
    rfl
  have hkey : r.keyColumn m = r.targetColumn m r.targetKey := rfl
  -- the words of the statement, with the spaces between tokens around them
  have hselect : "SELECT " = "SELECT" ++ " " := by simp
  have hfrom : " FROM " = " " ++ ("FROM" ++ " ") := by simp
  have has : " AS " = " " ++ ("AS" ++ " ") := by simp
  have hwhere : " WHERE " = " " ++ ("WHERE" ++ " ") := by simp
  have hin : " IN (" = " " ++ ("IN" ++ (" " ++ "(")) := by simp
  simp only [hcolumns, hkey, Dialect.placeholders_eq, hkeys, Keyword.text, Join.pathName, if_true,
    Bool.false_eq_true, if_false, String.empty_append, String.append_empty, -String.reduceAppend]
  unfold batchText
  simp only [hselect, hfrom, has, hwhere, hin, String.append_assoc, -String.reduceAppend]

/-- For every context, the query of a relation is written as one statement, to which the keys are
bound. -/
theorem compile_keyQuery (h : r.keys parents ≠ []) (ctx : Context) :
    (r.keyQuery m parents).compile ctx =
      .ok ⟨r.batchText m (r.keys parents).length ctx, r.keys parents⟩ := by
  have hs := statement_keyQuery (m := m) h
  have hbindings := Query.bindings_statement hs ctx.dialect
  rw [literals_keyQuery] at hbindings
  rw [Query.compile, hs]
  refine congrArg Except.ok ?_
  rw [Statement.render, Token.render, text_keyQuery h ctx hs, hbindings]

/-- The query for parents that are not rejected binds a key of each parent, in their order. -/
theorem compile_keyQuery_of_not_rejects (hmodel : ∀ parent ∈ parents, parent.model = m)
    (hparents : parents ≠ []) (h : ¬r.Rejects m parents) :
    List.Forall₂ (fun parent key => parent.valueOf r.sourceField = some key)
        parents (r.keys parents) ∧
      ∀ ctx, (r.keyQuery m parents).compile ctx =
        .ok ⟨r.batchText m parents.length ctx, r.keys parents⟩ := by
  have hfield := hasField_of_not_rejects hparents h
  have hkeys := forall₂_keys hmodel hfield
  refine ⟨hkeys, fun ctx => ?_⟩
  rw [compile_keyQuery (keys_ne_nil hmodel hfield hparents), hkeys.length_eq]

end Relation

/-! ### The statements of a batch -/

namespace Loader

variable {l : Loader} {m : Model} {parents : List Record}

theorem queries_nil (h : ∀ r ∈ l.relations, ¬r.Rejects m []) :
    l.queries m [] = .ok (l.relations.map fun _ => none) := by
  refine mapM_eq_ok_iff_forall₂.mpr (List.forall₂_map_right_iff.mpr (List.forall₂_same.mpr ?_))
  exact fun r hr => Relation.batchQuery_eq_ok (fun _ h => nomatch h) (h r hr)

/-- The fetches of relations whose queries are made by one rule. -/
theorem fetches_map (l : Loader) (b : Backend) (query : Relation → Option Query) :
    l.fetches b (l.relations.map query) =
      l.relations.zipIdx.map fun (r, place) => Fetch.start b place r (query r) := by
  have hzip : l.relations.zip (l.relations.map query) = l.relations.map fun r => (r, query r) := by
    rw [← List.map_prod_left_eq_zip]
  rw [fetches, hzip, List.zipIdx_map, List.map_map]
  rfl

/-- The fetches of relations without queries send nothing and come to empty maps. -/
theorem fetches_none (l : Loader) (b : Backend) : l.fetches b (l.relations.map fun _ => none) =
    l.relations.map fun r => ⟨none, 0, .ok (.empty r)⟩ := by
  have hplaces : l.relations.map (fun r => (⟨none, 0, .ok (.empty r)⟩ : Fetch)) =
      (l.relations.zipIdx.map Prod.fst).map fun r => ⟨none, 0, .ok (.empty r)⟩ := by
    rw [List.zipIdx_map_fst]
  rw [fetches_map l b fun _ => none, hplaces, List.map_map]
  rfl

/-- Without parents nothing is sent, and every relation has its empty map. -/
theorem load_nil (h : ∀ r ∈ l.relations, ¬r.Rejects m []) (b : Backend) {gather : Gather}
    (hgather : gather.Lawful) :
    l.load b m [] gather = ⟨[], .ok (l.relations.map .empty)⟩ := by
  have hload : l.load b m [] gather =
      gather.run (l.relations.map fun r => ⟨none, 0, .ok (.empty r)⟩) := by
    rw [← fetches_none l b, load, queries_nil h]
  have hresult : (l.load b m [] gather).result = .ok (l.relations.map .empty) := by
    rw [hload, hgather.result_eq_ok_iff, List.map_map, List.map_map]
    rfl
  have hsent : (l.load b m [] gather).sent = [] := by
    rw [hload] at hresult ⊢
    rw [hgather.sent_eq hresult, List.filterMap_map]
    exact List.filterMap_eq_nil_iff.mpr fun r _ => rfl
  rw [← hresult, ← hsent]

theorem queries_eq_ok (hmodel : ∀ parent ∈ parents, parent.model = m) (hparents : parents ≠ [])
    (h : ∀ r ∈ l.relations, ¬r.Rejects m parents) :
    l.queries m parents = .ok (l.relations.map fun r => some (r.keyQuery m parents)) := by
  have hempty : parents.isEmpty = false := by simpa using hparents
  refine mapM_eq_ok_iff_forall₂.mpr (List.forall₂_map_right_iff.mpr (List.forall₂_same.mpr ?_))
  intro r hr
  rw [Relation.batchQuery_eq_ok hmodel (h r hr), hempty]
  rfl

/-- A batch that comes to maps has sent the statement of each relation once, in their order. -/
theorem sent_load (hmodel : ∀ parent ∈ parents, parent.model = m) (hparents : parents ≠ [])
    (h : ∀ r ∈ l.relations, ¬r.Rejects m parents) {b : Backend} {gather : Gather}
    (hgather : gather.Lawful) {maps : List RelationMap}
    (hload : (l.load b m parents gather).result = .ok maps) :
    (l.load b m parents gather).sent =
      l.relations.map fun r => ⟨r.batchText m parents.length b.context, r.keys parents⟩ := by
  rw [load, queries_eq_ok hmodel hparents h] at hload ⊢
  rw [hgather.sent_eq hload, fetches_map, List.filterMap_map]
  conv_rhs => rw [← List.zipIdx_map_fst 0 l.relations, List.map_map, ← List.filterMap_eq_map]
  refine List.filterMap_congr fun step hstep => ?_
  have hr : step.1 ∈ l.relations := List.fst_mem_of_mem_zipIdx hstep
  have hcompile := (Relation.compile_keyQuery_of_not_rejects hmodel hparents (h _ hr)).2 b.context
  simp only [Function.comp, Fetch.start, hcompile]

theorem exists_error_of_rejects (hmodel : ∀ parent ∈ parents, parent.model = m)
    (h : ∃ r ∈ l.relations, r.Rejects m parents) : ∃ e, l.queries m parents = .error e := by
  obtain ⟨r, hr, hrejects⟩ := h
  obtain ⟨e, he⟩ := Relation.exists_error_of_rejects hmodel hrejects
  cases hqueries : l.queries m parents with
  | error e' => exact ⟨e', rfl⟩
  | ok queries =>
    obtain ⟨q, hq⟩ := exists_of_mem_of_mapM hqueries r hr
    rw [he] at hq
    cases hq

/-- One relation that is rejected ends the batch before anything is sent. -/
theorem load_of_rejects (hmodel : ∀ parent ∈ parents, parent.model = m)
    (h : ∃ r ∈ l.relations, r.Rejects m parents) (b : Backend) (gather : Gather) :
    ∃ e, l.load b m parents gather = ⟨[], .error e⟩ := by
  obtain ⟨e, he⟩ := exists_error_of_rejects hmodel h
  exact ⟨e, by rw [load, he]⟩

end Loader

/-! ### Loaders of declared tables -/

namespace Table

/-- A relation that was declared on a table is rejected for no parents of the table's model. -/
theorem Declaration.Gives.not_rejects {m : Model} {d : Declaration} {r : Relation}
    (h : d.Gives m r) (parents : List Record) : ¬r.Rejects m parents := by
  rw [← h.source_eq]
  exact r.not_rejects_source parents

/-- The loader of names that were declared on a table has, for each name, the relation of its last
declaration. For parents of the table's model it has one query for each relation and none without
parents; the query is written, in every context, as the relation's statement with a placeholder for
each parent, to which the values of the parents' source fields are bound in order; and a batch that
comes to maps has sent these statements. For parents of any model, a relation that is rejected ends
the batch before anything is sent. -/
theorem loader_statements {m : Model} {ds : List Declaration} {t : Table}
    (h : declareAll m ds = .ok t) {names : List String}
    (hnames : ∀ name ∈ names, ∃ d ∈ ds, d.name = name) :
    ∃ l, t.loader names = .ok l ∧
      List.Forall₂ (fun name r => ∃ d, lastOf name ds = some d ∧ d.Gives m r)
        names l.relations ∧
      l.queries m [] = .ok (l.relations.map fun _ => none) ∧
      (∀ b (gather : Gather), gather.Lawful →
        l.load b m [] gather = ⟨[], .ok (l.relations.map .empty)⟩) ∧
      (∀ parents, parents ≠ [] → (∀ parent ∈ parents, parent.model = m) →
        (∃ queries, l.queries m parents = .ok (queries.map some) ∧
          List.Forall₂ (fun r (q : Query) =>
            List.Forall₂ (fun parent key => parent.valueOf r.sourceField = some key)
              parents (r.keys parents) ∧
            ∀ ctx, q.compile ctx = .ok ⟨r.batchText m parents.length ctx, r.keys parents⟩)
          l.relations queries) ∧
        ∀ b (gather : Gather), gather.Lawful → ∀ maps,
          (l.load b m parents gather).result = .ok maps → (l.load b m parents gather).sent =
            l.relations.map fun r => ⟨r.batchText m parents.length b.context, r.keys parents⟩) ∧
      ∀ m' others, (∀ other ∈ others, other.model = m') →
        (∃ r ∈ l.relations, r.Rejects m' others) →
        ∀ b gather, ∃ e, l.load b m' others gather = ⟨[], .error e⟩ := by
  obtain ⟨rs, hrs, hgiven⟩ := loader_declareAll h hnames
  have haccepted (parents : List Record) : ∀ r ∈ rs, ¬r.Rejects m parents := by
    intro r hr
    obtain ⟨name, -, d, -, hgives⟩ := exists_of_mem_of_forall₂ hgiven r hr
    exact hgives.not_rejects parents
  refine ⟨⟨rs⟩, bind_eq_ok_iff.mpr ⟨rs, hrs, rfl⟩, hgiven, Loader.queries_nil (haccepted []),
    fun b gather => Loader.load_nil (haccepted []) b,
    fun parents hparents hmodel => ⟨?_, fun b gather hgather maps => ?_⟩, ?_⟩
  · have hqueries := Loader.queries_eq_ok (l := ⟨rs⟩) hmodel hparents (haccepted parents)
    refine ⟨rs.map fun r => r.keyQuery m parents, by rw [hqueries, List.map_map]; rfl, ?_⟩
    rw [List.forall₂_map_right_iff]
    exact List.forall₂_same.mpr fun r hr =>
      Relation.compile_keyQuery_of_not_rejects hmodel hparents (haccepted parents r hr)
  · exact Loader.sent_load hmodel hparents (haccepted parents) hgather
  · exact fun m' others hmodel hrejects => Loader.load_of_rejects hmodel hrejects

/-- A relation that is declared twice and one that leads back to the table, for three parents of
which two have the same key and none has the other. -/
theorem loader_statements_redeclared :
    let field (name : String) : Field := ⟨name, .option (.int .int64), name, rfl⟩
    let user : Model := ⟨"User", "users", [field "id", field "boss"], by decide⟩
    let post : Model := ⟨"Post", "posts", [field "author"], by simp⟩
    let ds : List Declaration := [⟨"posts", user, "boss", "boss"⟩, ⟨"boss", user, "id", "boss"⟩,
      ⟨"posts", post, "author", "id"⟩]
    let l : Loader := ⟨[⟨"boss", user, user, "id", "boss", rfl, rfl⟩,
      ⟨"posts", user, post, "author", "id", rfl, rfl⟩]⟩
    let parents : List Record := [⟨user, [.some (.int 7), .none], rfl⟩,
      ⟨user, [.some (.int 9), .none], rfl⟩, ⟨user, [.some (.int 7), .none], rfl⟩]
    let b : Backend := ⟨.ofDialect .postgresql, fun _ => .ok [], fun _ _ => 0, fun _ _ => .ok []⟩
    let statements : List Compiled := [
      ⟨"SELECT \"users_boss\".\"id\", \"users_boss\".\"boss\" FROM \"users\" AS \"users_boss\"" ++
        " WHERE \"users_boss\".\"id\" IN ($1, $2, $3)", [.null, .null, .null]⟩,
      ⟨"SELECT \"users_posts\".\"author\" FROM \"posts\" AS \"users_posts\"" ++
        " WHERE \"users_posts\".\"author\" IN ($1, $2, $3)", [.integer 7, .integer 9, .integer 7]⟩]
    ∃ t, declareAll user ds = .ok t ∧ (∀ name ∈ ["boss", "posts"], ∃ d ∈ ds, d.name = name) ∧
      t.loader ["boss", "posts"] = .ok l ∧ l.queries user [] = .ok [none, none] ∧
      (∃ queries, l.queries user parents = .ok (queries.map some) ∧
        List.Forall₂ (fun (q : Query) statement => q.compile b.context = .ok statement)
          queries statements) ∧
      Gather.inRounds.Lawful ∧ (l.load b user parents .inRounds).sent = statements ∧
      ∃ e, l.load b post [⟨post, [.some (.int 7)], rfl⟩] .inRounds = ⟨[], .error e⟩ := by
  intro field user post ds l parents b statements
  have hnames : ∀ name ∈ ["boss", "posts"], ∃ d ∈ ds, d.name = name := by simp [ds]
  obtain ⟨_, hl, -, hnil, -, hparents, hrejects⟩ := loader_statements (m := user) rfl hnames
  cases hl
  have hmodel : ∀ parent ∈ parents, parent.model = user := by simp [parents]
  obtain ⟨⟨queries, hqueries, hcompile⟩, hsent⟩ := hparents parents (List.cons_ne_nil _ _) hmodel
  have hstatements : (l.relations.map fun r =>
      ⟨r.batchText user parents.length b.context, r.keys parents⟩) = statements := by decide
  refine ⟨_, rfl, hnames, rfl, hnil, ⟨queries, hqueries, ?_⟩, Gather.lawful_inRounds, ?_,
    hrejects post _ (by simp) ⟨_, List.mem_cons_self, .inl (by decide)⟩ b .inRounds⟩
  · rw [← hstatements, List.forall₂_map_right_iff]
    exact hcompile.flip.imp fun q r hq => hq.2 b.context
  · rw [← hstatements]
    exact hsent b .inRounds Gather.lawful_inRounds [.empty l.relations[0], .empty l.relations[1]]
      (Gather.lawful_inRounds.result_eq_ok_iff.mpr rfl)

end Table

end SqlCompose
