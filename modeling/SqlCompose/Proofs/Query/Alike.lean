import SqlCompose.Proofs.Query.Clauses
import SqlCompose.Proofs.Sql.Mask

/-!
# Queries of one form

Two queries are alike under a mask when they are built alike, entry by entry and join by join, and
differ in what the mask hides at most. The condition of a join is a function; two of them are
alike when they give alike predicates for the tables that they are evaluated at. The statements of
alike queries then differ in what the mask hides at most.

## Main definitions

* `TableRef.Alike`, `Join.Alike`, `SelectItem.Alike`, `Query.Alike`: tables, trees of joins,
  entries and queries that differ in what a mask hides at most.

## Main results

* `Query.Alike.masked_eq`: the statements of alike queries are equal once masked.
-/

namespace SqlCompose

/-- Two tables whose clauses and whose columns, as they are written, are the same once masked. -/
structure TableRef.Alike (m : Mask) (t t' : TableRef) : Prop where
  clause_eq : t.clause.masked m = t'.clause.masked m
  columns_eq : t.columns.map (Column.masked m) = t'.columns.map (Column.masked m)

namespace Join

mutual

/-- Two trees of one form over alike tables. -/
inductive Alike (m : Mask) : Join → Join → Prop
  | node {name left right condition children name' left' right' condition' children'}
      (ht : right.Alike m right') (hc : AlikeAll m children children') :
      Alike m ⟨name, left, right, condition, children⟩ ⟨name', left', right', condition', children'⟩

/-- Trees that are alike one by one. -/
inductive AlikeAll (m : Mask) : List Join → List Join → Prop
  | nil : AlikeAll m [] []
  | cons {j j' js js'} (hj : Alike m j j') (hjs : AlikeAll m js js') :
      AlikeAll m (j :: js) (j' :: js')

end

end Join

/-- Two entries of a select or group list of one kind and over alike parts. -/
inductive SelectItem.Alike (m : Mask) : SelectItem → SelectItem → Prop
  | expr {e e'} (he : e.masked m = e'.masked m) : Alike m (.expr e) (.expr e')
  | aliased {e e' a a'} (he : e.masked m = e'.masked m) (ha : m.name a = m.name a') :
      Alike m (.aliased e a) (.aliased e' a')
  | columns {t t'} (ht : t.Alike m t') : Alike m (.columns t) (.columns t')
  | join {j j'} (hj : j.Alike m j') : Alike m (.join j) (.join j')

/-- An entry of an order list, masked. -/
def OrderItem.masked (m : Mask) (o : OrderItem) : OrderItem := ⟨o.expr.masked m, o.direction⟩

/-- Two queries that differ in what the mask hides at most. -/
structure Query.Alike (m : Mask) (q q' : Query) : Prop where
  source : q.source.Alike m q'.source
  selected : List.Forall₂ (SelectItem.Alike m) q.selected q'.selected
  joins : Join.AlikeAll m q.joins q'.joins
  conditions : List.Forall₂ (fun step step' => (step.2.predicate step.1).map (Expr.masked m) =
      (step'.2.predicate step'.1).map (Expr.masked m))
    (Join.walkAll q.source q.joins) (Join.walkAll q'.source q'.joins)
  filters : q.filters.map (Expr.masked m) = q'.filters.map (Expr.masked m)
  groups : List.Forall₂ (SelectItem.Alike m) q.groups q'.groups
  groupFilters : q.groupFilters.map (Expr.masked m) = q'.groupFilters.map (Expr.masked m)
  orders : q.orders.map (OrderItem.masked m) = q'.orders.map (OrderItem.masked m)
  limit : q.limit = q'.limit
  offset : q.offset = q'.offset

variable {m : Mask}

/-! ### Entries -/

theorem TableRef.Alike.outputs_eq {t t' : TableRef} (h : t.Alike m t') :
    t.outputs.map (OutputItem.masked m) = t'.outputs.map (OutputItem.masked m) := by
  have houtputs (t : TableRef) : t.outputs.map (OutputItem.masked m) =
      (t.columns.map (Column.masked m)).map fun c => ⟨.column c, none⟩ := by
    rw [outputs, List.map_map, List.map_map]
    rfl
  rw [houtputs, houtputs, h.columns_eq]

namespace Join

mutual

/-- The joins of two alike trees are walked in step. -/
theorem Alike.forall₂_walk {j j' : Join} (parent parent' : TableRef) : j.Alike m j' →
    List.Forall₂ (fun step step' => step.2.right.Alike m step'.2.right)
      (j.walk parent) (j'.walk parent')
  | .node ht hc => by
    rw [walk, walk]
    exact .cons ht (hc.forall₂_walkAll _ _)

theorem AlikeAll.forall₂_walkAll {js js' : List Join} (parent parent' : TableRef) :
    AlikeAll m js js' → List.Forall₂ (fun step step' => step.2.right.Alike m step'.2.right)
      (walkAll parent js) (walkAll parent' js')
  | .nil => .nil
  | .cons hj hjs => by
    rw [walkAll, walkAll]
    exact List.rel_append (hj.forall₂_walk parent parent') (hjs.forall₂_walkAll parent parent')

end

theorem Alike.outputs_eq {j j' : Join} (h : j.Alike m j') :
    j.outputs.map (OutputItem.masked m) = j'.outputs.map (OutputItem.masked m) := by
  rw [j.outputs_eq_walk j.right, j'.outputs_eq_walk j'.right, List.map_flatMap, List.map_flatMap]
  exact flatMap_of_forall₂ (fun _ _ ht => TableRef.Alike.outputs_eq ht)
    (h.forall₂_walk j.right j'.right)

end Join

theorem SelectItem.Alike.entries_eq {item item' : SelectItem} (h : item.Alike m item') :
    item.entries.map (OutputItem.masked m) = item'.entries.map (OutputItem.masked m) := by
  cases h with
  | expr he => simp [entries, OutputItem.masked, he]
  | aliased he ha => simp [entries, OutputItem.masked, he, ha]
  | columns ht => exact ht.outputs_eq
  | join hj => exact hj.outputs_eq

theorem SelectItem.flatMap_entries_eq {items items' : List SelectItem}
    (h : List.Forall₂ (SelectItem.Alike m) items items') :
    (items.flatMap entries).map (OutputItem.masked m) =
      (items'.flatMap entries).map (OutputItem.masked m) := by
  induction h with
  | nil => rfl
  | cons hitem _ ih =>
    rw [List.flatMap_cons, List.flatMap_cons, List.map_append, List.map_append, hitem.entries_eq,
      ih]

/-! ### Clauses -/

theorem masked_conjoined (es : List Expr) :
    (conjoined es).map (Expr.masked m) = conjoined (es.map (Expr.masked m)) := by
  cases es with
  | nil => rfl
  | cons e es => exact congrArg some (Expr.masked_all m e es)

/-- Joins that are walked in step have clauses that differ in what the mask hides at most: a
condition that both can be evaluated gives alike predicates. -/
private theorem masked_joins_eq {steps steps' : List (TableRef × Join)}
    {clauses clauses' : List JoinClause}
    (ht : List.Forall₂ (fun step step' => step.2.right.Alike m step'.2.right) steps steps')
    (hp : List.Forall₂ (fun step step' => (step.2.predicate step.1).map (Expr.masked m) =
      (step'.2.predicate step'.1).map (Expr.masked m)) steps steps')
    (hc : List.Forall₂ (fun step clause => step.2.Writes step.1 clause) steps clauses)
    (hc' : List.Forall₂ (fun step clause => step.2.Writes step.1 clause) steps' clauses') :
    clauses.map (JoinClause.masked m) = clauses'.map (JoinClause.masked m) := by
  induction ht generalizing clauses clauses' with
  | nil =>
    cases hc
    cases hc'
    rfl
  | @cons step step' _ _ htable _ ih =>
    obtain _ | ⟨hpredicate, hp⟩ := hp
    obtain _ | ⟨⟨e, he, rfl⟩, hc⟩ := hc
    obtain _ | ⟨⟨e', he', rfl⟩, hc'⟩ := hc'
    rw [he, he'] at hpredicate
    have hclause : JoinClause.masked m ⟨step.2.right.clause, e⟩ =
        JoinClause.masked m ⟨step'.2.right.clause, e'⟩ :=
      congrArg₂ JoinClause.mk htable.clause_eq (Except.ok.inj hpredicate)
    rw [List.map_cons, List.map_cons, hclause, ih hp hc hc']

namespace Query

theorem Alike.groupExprs_eq {q q' : Query} (h : q.Alike m q') :
    q.groupExprs.map (List.map (Expr.masked m)) = q'.groupExprs.map (List.map (Expr.masked m)) := by
  have hexpr (os : List OutputItem) : (os.map OutputItem.expr).map (Expr.masked m) =
      (os.map (OutputItem.masked m)).map OutputItem.expr := by
    rw [List.map_map, List.map_map]
    rfl
  have hempty : q.groups.isEmpty = q'.groups.isEmpty := by
    rw [Bool.eq_iff_iff, List.isEmpty_iff_length_eq_zero, List.isEmpty_iff_length_eq_zero,
      h.groups.length_eq]
  rw [groupExprs, groupExprs, hempty]
  split
  · rfl
  · rw [Option.map_some, Option.map_some, hexpr, hexpr, SelectItem.flatMap_entries_eq h.groups]

theorem Alike.orders_eq {q q' : Query} (h : q.Alike m q') :
    (q.orders.map fun o => (⟨o.expr, o.direction.keyword⟩ : OrderClause)).map
        (OrderClause.masked m) =
      (q'.orders.map fun o => ⟨o.expr, o.direction.keyword⟩).map (OrderClause.masked m) := by
  have hclause (os : List OrderItem) :
      (os.map fun o => (⟨o.expr, o.direction.keyword⟩ : OrderClause)).map (OrderClause.masked m) =
        (os.map (OrderItem.masked m)).map fun o => ⟨o.expr, o.direction.keyword⟩ := by
    rw [List.map_map, List.map_map]
    rfl
  rw [hclause, hclause, h.orders]

/-- The statements of alike queries are equal once masked. -/
theorem Alike.masked_eq {q q' : Query} {s s' : Statement} (h : q.Alike m q')
    (hs : q.statement = .ok s) (hs' : q'.statement = .ok s') : s.masked m = s'.masked m := by
  have hr := resolves_of_statement hs
  have hr' := resolves_of_statement hs'
  have hsource : q.source.clause.masked m = q'.source.clause.masked m := h.source.clause_eq
  have hjoins : s.joins.map (JoinClause.masked m) = s'.joins.map (JoinClause.masked m) :=
    masked_joins_eq (h.joins.forall₂_walkAll q.source q'.source) h.conditions hr.joins hr'.joins
  simp only [Statement.masked, hjoins, hr.items, hr'.items, hr.source, hr'.source, hr.filter,
    hr'.filter, hr.groups, hr'.groups, hr.groupFilter, hr'.groupFilter, hr.orders, hr'.orders,
    hr.limit, hr'.limit, hr.offset, hr'.offset, hsource, h.groupExprs_eq, h.orders_eq,
    SelectItem.flatMap_entries_eq h.selected, masked_conjoined, h.filters, h.groupFilters, h.limit,
    h.offset]

end Query

end SqlCompose
