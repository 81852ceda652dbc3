import Mathlib.Data.List.Forall2
import SqlCompose.Query.Statement

/-!
# The clauses of a compiled query

A query has a statement exactly if each of its clauses can be written, and the clauses of the
statement are then those. A clause with several entries is written entry by entry, so that what is
known of each entry adds up along the list.

## Main results

* `Query.statement_eq_ok_iff`: the clauses of the statement of a query.
* `flatMap_of_mapM`: what is known of each entry of a clause is known of all of them.
* `Query.resolves_of_statement`: what stands in the statement is what the query was built from.
-/

namespace SqlCompose

/-! ### Successful steps -/

theorem bind_eq_ok_iff {ε α β : Type} {x : Except ε α} {f : α → Except ε β} {b : β} :
    (x >>= f) = .ok b ↔ ∃ a, x = .ok a ∧ f a = .ok b := by
  cases x with
  | error e => exact ⟨fun h => (nomatch h), fun ⟨_, h, _⟩ => nomatch h⟩
  | ok a => exact ⟨fun h => ⟨a, rfl, h⟩, fun ⟨_, h, hf⟩ => by cases h; exact hf⟩

theorem map_eq_ok_iff {ε α β : Type} {x : Except ε α} {f : α → β} {b : β} :
    f <$> x = .ok b ↔ ∃ a, x = .ok a ∧ f a = b := by
  cases x with
  | error e => exact ⟨fun h => (nomatch h), fun ⟨_, h, _⟩ => nomatch h⟩
  | ok a =>
    exact ⟨fun h => ⟨a, rfl, Except.ok.inj h⟩, fun ⟨_, h, hf⟩ => by cases h; exact congrArg _ hf⟩

/-- Two steps that come to the same both fail, for one reason, or both succeed. -/
theorem error_or_ok_of_map_eq {ε α β γ : Type} {x : Except ε α} {y : Except ε β} {f : α → γ}
    {g : β → γ} (h : x.map f = y.map g) :
    (∃ e, x = .error e ∧ y = .error e) ∨ ∃ a b, x = .ok a ∧ y = .ok b ∧ f a = g b := by
  cases x with
  | error e =>
    cases y with
    | error e' =>
      cases h
      exact Or.inl ⟨e, rfl, rfl⟩
    | ok b => cases h
  | ok a =>
    cases y with
    | error e => cases h
    | ok b => exact Or.inr ⟨a, b, rfl, rfl, Except.ok.inj h⟩

theorem mapM_cons_eq_ok_iff {ε α β : Type} {f : α → Except ε β} {x : α} {xs : List α}
    {ys : List β} :
    (x :: xs).mapM f = .ok ys ↔ ∃ z zs, f x = .ok z ∧ xs.mapM f = .ok zs ∧ ys = z :: zs := by
  rw [List.mapM_cons]
  simp only [bind_eq_ok_iff, pure, Except.pure, Except.ok.injEq]
  constructor
  · rintro ⟨z, hz, zs, hzs, rfl⟩
    exact ⟨z, zs, hz, hzs, rfl⟩
  · rintro ⟨z, zs, hz, hzs, rfl⟩
    exact ⟨z, hz, zs, hzs, rfl⟩

/-- A list is written if each entry is, and what the entries are written as stands at their
places. -/
theorem mapM_eq_ok_iff_forall₂ {ε α β : Type} {f : α → Except ε β} {xs : List α} {ys : List β} :
    xs.mapM f = .ok ys ↔ List.Forall₂ (fun x y => f x = .ok y) xs ys := by
  constructor
  · intro h
    induction xs generalizing ys with
    | nil =>
      cases h
      exact .nil
    | cons x xs ih =>
      obtain ⟨z, zs, hz, hzs, rfl⟩ := mapM_cons_eq_ok_iff.mp h
      exact .cons hz (ih hzs)
  · intro h
    induction h with
    | nil => rfl
    | cons hxy _ ih => exact mapM_cons_eq_ok_iff.mpr ⟨_, _, hxy, ih, rfl⟩

theorem mapM_append_eq_ok_iff {ε α β : Type} {f : α → Except ε β} {xs ys : List α}
    {zs : List β} : (xs ++ ys).mapM f = .ok zs ↔
      ∃ as bs, xs.mapM f = .ok as ∧ ys.mapM f = .ok bs ∧ zs = as ++ bs := by
  rw [List.mapM_append]
  simp only [bind_eq_ok_iff, pure, Except.pure, Except.ok.injEq]
  constructor
  · rintro ⟨as, has, bs, hbs, rfl⟩
    exact ⟨as, bs, has, hbs, rfl⟩
  · rintro ⟨as, bs, has, hbs, rfl⟩
    exact ⟨as, has, bs, hbs, rfl⟩

theorem mapM_eq_ok_iff_map {ε α β : Type} {f : α → Except ε β} {xs : List α} {ys : List β} :
    xs.mapM f = .ok ys ↔ xs.map f = ys.map .ok := by
  rw [mapM_eq_ok_iff_forall₂, ← List.forall₂_eq_eq_eq, List.forall₂_map_left_iff,
    List.forall₂_map_right_iff]

/-- Every entry of a list that is written is. -/
theorem exists_of_mem_of_mapM {ε α β : Type} {f : α → Except ε β} {xs : List α} {ys : List β}
    (h : xs.mapM f = .ok ys) : ∀ x ∈ xs, ∃ y, f x = .ok y :=
  ((List.forall₂_and_left xs ys).mp
    ((mapM_eq_ok_iff_forall₂.mp h).imp fun _ y hxy => ⟨⟨y, hxy⟩, hxy⟩)).1

/-- A list that fails to be written fails as one of its entries does. -/
theorem exists_of_mapM_eq_error {ε α β : Type} {f : α → Except ε β} {xs : List α} {e : ε}
    (h : xs.mapM f = .error e) : ∃ x ∈ xs, f x = .error e := by
  induction xs with
  | nil => cases h
  | cons x xs ih =>
    rw [List.mapM_cons] at h
    cases hx : f x with
    | error e' =>
      rw [hx] at h
      cases h
      exact ⟨x, List.mem_cons_self, hx⟩
    | ok y =>
      rw [hx] at h
      cases hxs : xs.mapM f with
      | error e' =>
        rw [hxs] at h
        cases h
        obtain ⟨x', hx', he⟩ := ih hxs
        exact ⟨x', List.mem_cons_of_mem _ hx', he⟩
      | ok ys =>
        rw [hxs] at h
        cases h

/-- Every entry of the second of two lists in step belongs to one of the first. -/
theorem exists_of_mem_of_forall₂ {α β : Type} {r : α → β → Prop} {xs : List α} {ys : List β}
    (h : List.Forall₂ r xs ys) : ∀ y ∈ ys, ∃ x ∈ xs, r x y := by
  induction h with
  | nil => exact fun y hy => nomatch hy
  | cons hxy _ ih =>
    refine List.forall_mem_cons.mpr ⟨⟨_, List.mem_cons_self, hxy⟩, fun y hy => ?_⟩
    obtain ⟨x, hx, hr⟩ := ih y hy
    exact ⟨x, List.mem_cons_of_mem _ hx, hr⟩

/-- What holds of two entries in step may use that they are entries. -/
theorem forall₂_imp_of_mem {α β : Type} {r s : α → β → Prop} {xs : List α} {ys : List β}
    (h : List.Forall₂ r xs ys) (hs : ∀ x ∈ xs, ∀ y ∈ ys, r x y → s x y) :
    List.Forall₂ s xs ys := by
  induction h with
  | nil => exact .nil
  | cons hxy _ ih =>
    refine .cons (hs _ List.mem_cons_self _ List.mem_cons_self hxy) (ih fun x hx y hy => ?_)
    exact hs x (List.mem_cons_of_mem _ hx) y (List.mem_cons_of_mem _ hy)

/-- What each entry of a list gives for the one at its place, the whole list gives. -/
theorem flatMap_of_forall₂ {α β γ : Type} {r : α → β → Prop} {g : α → List γ} {h : β → List γ}
    (hr : ∀ x y, r x y → g x = h y) {xs : List α} {ys : List β} (hxy : List.Forall₂ r xs ys) :
    xs.flatMap g = ys.flatMap h := by
  induction hxy with
  | nil => rfl
  | cons hstep _ ih => rw [List.flatMap_cons, List.flatMap_cons, hr _ _ hstep, ih]

/-- What each entry of a list gives for what it is written as, the whole list gives. -/
theorem flatMap_of_mapM {ε α β γ : Type} {f : α → Except ε β} {g : α → List γ} {h : β → List γ}
    (hf : ∀ x y, f x = .ok y → g x = h y) {xs : List α} {ys : List β} (hys : xs.mapM f = .ok ys) :
    xs.flatMap g = ys.flatMap h :=
  flatMap_of_forall₂ hf (mapM_eq_ok_iff_forall₂.mp hys)

/-- Entries that are written as what a function says are written as its list. -/
theorem eq_map_of_mapM {ε α β : Type} {f : α → Except ε β} {g : α → β}
    (hf : ∀ x y, f x = .ok y → g x = y) {xs : List α} {ys : List β} (h : xs.mapM f = .ok ys) :
    xs.map g = ys := by
  rw [← List.forall₂_eq_eq_eq, List.forall₂_map_left_iff]
  exact (mapM_eq_ok_iff_forall₂.mp h).imp hf

theorem Expr.eq_of_checked {e f : Expr} (h : e.checked = .ok f) :
    e.hasEmptyIn = false ∧ f = e := by
  rw [checked] at h
  split at h
  · cases h
  · next hin =>
    cases h
    exact ⟨Bool.eq_false_iff.mpr hin, rfl⟩

/-- The select entries that an item stands for if it can be written. -/
def SelectItem.entries : SelectItem → List OutputItem
  | expr e => [⟨e, none⟩]
  | aliased e aliasName => [⟨e, some aliasName⟩]
  | columns t => t.outputs
  | join j => j.outputs

theorem SelectItem.eq_entries {item : SelectItem} {os : List OutputItem}
    (h : item.outputs = .ok os) : os = item.entries := by
  cases item with
  | expr e | aliased e aliasName =>
    simp only [outputs, bind_eq_ok_iff] at h
    obtain ⟨f, hf, h⟩ := h
    obtain ⟨-, rfl⟩ := Expr.eq_of_checked hf
    cases h
    rfl
  | columns t | join j =>
    cases h
    rfl

theorem SelectItem.eq_of_groups {item : SelectItem} {es : List Expr} (h : item.groups = .ok es) :
    es = item.entries.map OutputItem.expr := by
  cases item with
  | aliased e aliasName => cases h
  | expr e | columns t | join j =>
    obtain ⟨os, hos, h⟩ := bind_eq_ok_iff.mp h
    cases h
    rw [eq_entries hos]

/-- The conjunction of predicates, of which there may be none. -/
def conjoined : List Expr → Option Expr
  | [] => none
  | es => some (Expr.all es)

theorem eq_of_conjunction {es : List Expr} {p : Option Expr} (h : conjunction es = .ok p) :
    p = conjoined es := by
  cases es with
  | nil =>
    cases h
    rfl
  | cons e es =>
    obtain ⟨f, hf, rfl⟩ := map_eq_ok_iff.mp h
    exact congrArg some (Expr.eq_of_checked hf).2

/-- What the two sides of a conjunction give together, all its predicates give. -/
theorem flatMap_conjoined {γ : Type} {g : Expr → List γ}
    (hg : ∀ left right, g (.binary left .and right) = g left ++ g right) (es : List Expr) :
    (conjoined es).toList.flatMap g = es.flatMap g := by
  have hfold (acc : Expr) (es : List Expr) :
      g (es.foldl (fun left right => .binary left .and right) acc) = g acc ++ es.flatMap g := by
    induction es generalizing acc with
    | nil => exact (List.append_nil _).symm
    | cons f fs ih => rw [List.foldl_cons, ih, hg, List.append_assoc, List.flatMap_cons]
  cases es with
  | nil => rfl
  | cons e es => exact (List.append_nil _).trans (hfold e es)

theorem TableRef.map_tokens_outputs (t : TableRef) :
    t.outputs.map OutputItem.tokens = t.columns.map Column.tokens := by
  rw [outputs, List.map_map]
  exact List.map_congr_left fun c _ => List.append_nil c.tokens

/-- The select entries of tables are written as their columns, table by table. -/
theorem TableRef.map_tokens_flatMap_outputs (ts : List TableRef) :
    (ts.flatMap outputs).map OutputItem.tokens =
      ts.flatMap fun t => t.columns.map Column.tokens := by
  rw [List.map_flatMap]
  exact congrArg (ts.flatMap ·) (funext map_tokens_outputs)

mutual

/-- The select entries of a join tree are the columns of its tables as its joins are walked. -/
theorem Join.outputs_eq_walk (parent : TableRef) : (j : Join) →
    j.outputs = (j.walk parent).flatMap fun step => step.2.right.outputs
  | ⟨_, _, right, _, children⟩ => by
    rw [outputs, walk, List.flatMap_cons, Join.outputsAll_eq_walkAll right children]

theorem Join.outputsAll_eq_walkAll (parent : TableRef) : (js : List Join) →
    outputsAll js = (walkAll parent js).flatMap fun step => step.2.right.outputs
  | [] => rfl
  | j :: js => by
    rw [outputsAll, walkAll, List.flatMap_append, ← Join.outputs_eq_walk parent j,
      ← Join.outputsAll_eq_walkAll parent js]

end

/-- The tables of a join tree, depth first from the top. -/
def Join.tables (j : Join) : List TableRef := (j.walk j.right).map fun step => step.2.right

/-- Which tables a join tree has does not depend on where it hangs. -/
theorem Join.map_right_walk (parent : TableRef) (j : Join) :
    (j.walk parent).map (fun step => step.2.right) = j.tables := by
  cases j
  rfl

theorem Join.map_right_walkAll (parent : TableRef) (js : List Join) :
    (walkAll parent js).map (fun step => step.2.right) = js.flatMap tables := by
  rw [walkAll_eq_flatMap, List.map_flatMap]
  exact congrArg (js.flatMap ·) (funext (map_right_walk parent))

/-- The table of a join comes before those below it, one join after the other. -/
theorem Join.tables_eq_cons (j : Join) : j.tables = j.right :: j.children.flatMap tables := by
  obtain ⟨name, left, right, condition, children⟩ := j
  rw [tables, walk, List.map_cons, map_right_walkAll]

/-- The select entries of a join tree are the columns of its tables. -/
theorem Join.outputs_eq_tables (j : Join) : j.outputs = j.tables.flatMap TableRef.outputs := by
  rw [j.outputs_eq_walk j.right, tables, List.flatMap_map]

/-- What a join below a table is written as: its own table, on its condition between the two. -/
def Join.Writes (j : Join) (parent : TableRef) (clause : JoinClause) : Prop :=
  ∃ e, j.predicate parent = .ok e ∧ clause = ⟨j.right.clause, e⟩

theorem Join.writes_of_clause {parent : TableRef} {j : Join} {clause : JoinClause}
    (h : j.clause parent = .ok clause) : j.Writes parent clause := by
  simp only [Join.clause, bind_eq_ok_iff] at h
  obtain ⟨e, he, f, hf, h⟩ := h
  obtain ⟨-, rfl⟩ := Expr.eq_of_checked hf
  cases h
  exact ⟨f, he, rfl⟩

theorem OrderItem.eq_of_clause {o : OrderItem} {clause : OrderClause}
    (h : o.clause = .ok clause) : ⟨o.expr, o.direction.keyword⟩ = clause := by
  obtain ⟨f, hf, h⟩ := bind_eq_ok_iff.mp h
  obtain ⟨-, rfl⟩ := Expr.eq_of_checked hf
  cases h
  rfl

/-! ### Clauses -/

namespace Query

/-- The statement of a query has the query's clauses, each of which can be written. -/
theorem statement_eq_ok_iff {q : Query} {s : Statement} :
    q.statement = .ok s ↔
      q.outputs = .ok s.items ∧ q.source.clause = s.source ∧ q.joinClauses = .ok s.joins ∧
      conjunction q.filters = .ok s.filter ∧ q.groupList = .ok s.groups ∧
      conjunction q.groupFilters = .ok s.groupFilter ∧
      q.orders.mapM OrderItem.clause = .ok s.orders ∧ q.limit = s.limit ∧
      q.offset = s.offset := by
  simp only [statement, bind_eq_ok_iff, pure, Except.pure, Except.ok.injEq]
  constructor
  · rintro ⟨items, hi, joins, hj, filter, hf, groups, hg, groupFilter, hgf, orders, ho, rfl⟩
    exact ⟨hi, rfl, hj, hf, hg, hgf, ho, rfl, rfl⟩
  · rintro ⟨hi, hs, hj, hf, hg, hgf, ho, hl, hoff⟩
    exact ⟨_, hi, _, hj, _, hf, _, hg, _, hgf, _, ho, by rw [hs, hl, hoff]⟩

theorem exists_statement {ctx : Context} {q : Query} {c : Compiled} (h : q.compile ctx = .ok c) :
    ∃ s, q.statement = .ok s ∧ c = s.render ctx := by
  rw [compile] at h
  cases hs : q.statement with
  | error e =>
    rw [hs] at h
    cases h
  | ok s =>
    rw [hs] at h
    cases h
    exact ⟨s, rfl, rfl⟩

theorem outputs_eq_ok_iff {q : Query} {items : List OutputItem} :
    q.outputs = .ok items ↔ q.selected ≠ [] ∧
      ∃ parts, q.selected.mapM SelectItem.outputs = .ok parts ∧ items = parts.flatten := by
  rw [outputs]
  split
  · next hempty =>
    exact iff_of_false nofun fun h => h.1 (List.isEmpty_iff.mp hempty)
  · next hne =>
    simp only [bind_eq_ok_iff, pure, Except.pure, Except.ok.injEq]
    constructor
    · rintro ⟨parts, hparts, rfl⟩
      exact ⟨fun hnil => hne (List.isEmpty_iff.mpr hnil), parts, hparts, rfl⟩
    · rintro ⟨-, parts, hparts, rfl⟩
      exact ⟨parts, hparts, rfl⟩

/-- The select entries are those of the items, one item after the other. -/
theorem items_eq_flatMap_entries {q : Query} {items : List OutputItem}
    (h : q.outputs = .ok items) : items = q.selected.flatMap SelectItem.entries := by
  obtain ⟨-, parts, hparts, rfl⟩ := outputs_eq_ok_iff.mp h
  rw [flatMap_of_mapM (fun _ _ ho => (SelectItem.eq_entries ho).symm) hparts]
  exact List.flatMap_id'.symm

/-- What each item of a group list gives for its expressions, the whole list gives. -/
theorem flatMap_of_groupList {γ : Type} {g : SelectItem → List γ} {h : Expr → List γ}
    (hg : ∀ item es, item.groups = .ok es → g item = es.flatMap h) {q : Query}
    {groups : Option (List Expr)} (hq : q.groupList = .ok groups) :
    q.groups.flatMap g = (groups.getD []).flatMap h := by
  rw [groupList] at hq
  split at hq
  · next hempty =>
    cases hq
    rw [List.isEmpty_iff.mp hempty]
    rfl
  · obtain ⟨parts, hparts, hq⟩ := bind_eq_ok_iff.mp hq
    cases hq
    rw [Option.getD_some, ← List.flatMap_id', List.flatMap_assoc]
    exact flatMap_of_mapM hg hparts

/-- The group list of a query as it is written, of which there may be none. -/
def groupExprs (q : Query) : Option (List Expr) :=
  if q.groups.isEmpty then none
  else some ((q.groups.flatMap SelectItem.entries).map OutputItem.expr)

theorem eq_of_groupList {q : Query} {groups : Option (List Expr)} (h : q.groupList = .ok groups) :
    groups = q.groupExprs := by
  rw [groupList] at h
  rw [groupExprs]
  split at h
  · next hempty =>
    cases h
    exact (if_pos hempty).symm
  · next hempty =>
    obtain ⟨parts, hparts, h⟩ := bind_eq_ok_iff.mp h
    cases h
    rw [if_neg hempty, List.map_flatMap]
    have hflat := flatMap_of_mapM (fun _ _ hes => (SelectItem.eq_of_groups hes).symm) hparts
    exact congrArg some (hflat.trans List.flatMap_id').symm

/-- What stands in a statement is what its query was built from, entry by entry. Only the
conditions of the joins are evaluated. -/
structure Resolves (q : Query) (s : Statement) : Prop where
  items : s.items = q.selected.flatMap SelectItem.entries
  source : s.source = q.source.clause
  joins : List.Forall₂ (fun step clause => step.2.Writes step.1 clause)
    (Join.walkAll q.source q.joins) s.joins
  filter : s.filter = conjoined q.filters
  groups : s.groups = q.groupExprs
  groupFilter : s.groupFilter = conjoined q.groupFilters
  orders : s.orders = q.orders.map fun o => ⟨o.expr, o.direction.keyword⟩
  limit : s.limit = q.limit
  offset : s.offset = q.offset

theorem resolves_of_statement {q : Query} {s : Statement} (h : q.statement = .ok s) :
    q.Resolves s := by
  obtain ⟨hi, hs, hj, hf, hg, hgf, ho, hl, hoff⟩ := statement_eq_ok_iff.mp h
  exact {
    items := items_eq_flatMap_entries hi
    source := hs.symm
    joins := (mapM_eq_ok_iff_forall₂.mp hj).imp fun _ _ => Join.writes_of_clause
    filter := eq_of_conjunction hf
    groups := eq_of_groupList hg
    groupFilter := eq_of_conjunction hgf
    orders := (eq_map_of_mapM (fun _ _ => OrderItem.eq_of_clause) ho).symm
    limit := hl.symm
    offset := hoff.symm }

end Query

end SqlCompose
