import SqlCompose.Proofs.Query.Clauses

/-!
# When a query compiles

A query that can not be compiled fails with the first of its violations: an empty select list, a
join below a table that it does not start at or whose condition fails, a name on an item of a group
list, a membership test without candidates. The violations of a query are listed here in the order
of its clauses, without resolving any of them, and resolving reports the first of the list. Since
no context takes part in the list, a query compiles for every context or fails alike for all.

## Main definitions

* `Expr.nodes`: an expression with all that stands inside it.
* `Join.Hangs`: the joins of trees, each with the table that it hangs below.
* `Query.violations`: everything that keeps a query from being compiled, in order.
* `Query.Writable`: the queries with nothing of that.
* `Reports`: a step that fails with the first of some violations.

## Main results

* `Reports.bind`, `Reports.mapM`: steps one after the other, and along a list.
* `Query.violations_eq_nil_iff`: a query has no violation exactly if it is writable.
* `Query.compile_outcome`: for every context, the writable queries compile, and any other query
  fails with its first violation.
-/

namespace SqlCompose

/-! ### Violations -/

namespace Expr

mutual

/-- The expression and all expressions inside it, depth first from the top. -/
def nodes : Expr → List Expr
  | column c => [column c]
  | literal v => [literal v]
  | not e => not e :: e.nodes
  | binary left op right => binary left op right :: (left.nodes ++ right.nodes)
  | nullTest e positive => nullTest e positive :: e.nodes
  | inList e candidates positive =>
    inList e candidates positive :: (e.nodes ++ nodesEach candidates)
  | between e low high positive =>
    between e low high positive :: (e.nodes ++ low.nodes ++ high.nodes)
  | parens e => parens e :: e.nodes

/-- All expressions inside the expressions, themselves included. -/
def nodesEach : List Expr → List Expr
  | [] => []
  | e :: es => e.nodes ++ nodesEach es

end

/-- Whether the expression itself is a membership test without a candidate. -/
def isEmptyTest : Expr → Bool
  | inList _ [] _ => true
  | _ => false

/-- What keeps an expression from being written: a membership test without a candidate, anywhere
inside it. -/
def violations (e : Expr) : List Error := if e.nodes.any isEmptyTest then [.emptyInList] else []

end Expr

/-- What keeps an item of a select list from being written. -/
def SelectItem.violations : SelectItem → List Error
  | expr e | aliased e _ => e.violations
  | columns _ | join _ => []

/-- What keeps an item of a group list from being written, a name first. -/
def SelectItem.groupViolations : SelectItem → List Error
  | aliased _ _ => [.aliasedGroupItem]
  | item => item.violations

namespace Join

/-- What keeps a join below a table from being written, the joins below it aside: it starts at
another table, its condition fails, or its predicate can not be written. -/
def ownViolations (parent : TableRef) (j : Join) : List Error :=
  if j.left = parent.table then
    match j.condition parent j.right with
    | .ok predicate => predicate.violations
    | .error e => [e]
  else [.misplacedJoin j.name j.left parent.table]

mutual

/-- What keeps a join tree below a table from being written, depth first from the top. -/
def violations (parent : TableRef) : Join → List Error
  | j@⟨_, _, right, _, children⟩ => j.ownViolations parent ++ violationsAll right children

/-- What keeps the trees below a table from being written. -/
def violationsAll (parent : TableRef) : List Join → List Error
  | [] => []
  | j :: js => j.violations parent ++ violationsAll parent js

end

/-- The joins of trees that hang below a table, each with the table that it hangs below itself. -/
inductive Hangs : TableRef → List Join → TableRef → Join → Prop
  | top {t : TableRef} {js : List Join} {j : Join} (hj : j ∈ js) : Hangs t js t j
  | under {t parent : TableRef} {js : List Join} {j k : Join} (hj : j ∈ js)
      (hk : Hangs j.right j.children parent k) : Hangs t js parent k

end Join

namespace Query

/-- Everything that keeps a query from being compiled, clause by clause. -/
def violations (q : Query) : List Error :=
  (if q.selected.isEmpty then [.emptySelect] else []) ++
  q.selected.flatMap SelectItem.violations ++
  Join.violationsAll q.source q.joins ++
  q.filters.flatMap Expr.violations ++
  q.groups.flatMap SelectItem.groupViolations ++
  q.groupFilters.flatMap Expr.violations ++
  q.orders.flatMap fun o => o.expr.violations

/-- The expressions that a query evaluates: those of its lists, and the conditions of its joins
between the tables that they join. -/
inductive Evaluates (q : Query) : Expr → Prop
  | item {e : Expr} (h : .expr e ∈ q.selected) : Evaluates q e
  | namedItem {e : Expr} {aliasName : String} (h : .aliased e aliasName ∈ q.selected) :
      Evaluates q e
  | predicate {parent : TableRef} {j : Join} {e : Expr} (h : Join.Hangs q.source q.joins parent j)
      (he : j.condition parent j.right = .ok e) : Evaluates q e
  | filter {e : Expr} (h : e ∈ q.filters) : Evaluates q e
  | group {e : Expr} (h : .expr e ∈ q.groups) : Evaluates q e
  | groupFilter {e : Expr} (h : e ∈ q.groupFilters) : Evaluates q e
  | order {o : OrderItem} (h : o ∈ q.orders) : Evaluates q o.expr

/-- The queries that can be compiled. -/
structure Writable (q : Query) : Prop where
  /-- The select list has an item. -/
  selected_ne_nil : q.selected ≠ []
  /-- No item of the group list has a name. -/
  groups_unnamed : ∀ e aliasName, .aliased e aliasName ∉ q.groups
  /-- Every join starts at the table that it hangs below. -/
  joins_placed : ∀ parent j, Join.Hangs q.source q.joins parent j → j.left = parent.table
  /-- The condition of every join succeeds. -/
  joins_succeed : ∀ parent j, Join.Hangs q.source q.joins parent j →
    ∃ e, j.condition parent j.right = .ok e
  /-- No membership test that is evaluated, however deep, is without candidates. -/
  candidates_ne_nil : ∀ e, q.Evaluates e → ∀ f positive, .inList f [] positive ∉ e.nodes

end Query

/-! ### Membership tests without candidates -/

namespace Expr

mutual

theorem any_isEmptyTest_nodes : (e : Expr) → e.nodes.any isEmptyTest = e.hasEmptyIn
  | column _ | literal _ => rfl
  | not e | nullTest e _ | parens e => by
    rw [nodes, List.any_cons, any_isEmptyTest_nodes e, hasEmptyIn]
    rfl
  | binary left _ right => by
    rw [nodes, List.any_cons, List.any_append, any_isEmptyTest_nodes left,
      any_isEmptyTest_nodes right, hasEmptyIn]
    rfl
  | inList e [] _ => by
    rw [nodes, List.any_cons, hasEmptyIn]
    rfl
  | inList e (c :: cs) _ => by
    rw [nodes, List.any_cons, List.any_append, any_isEmptyTest_nodes e,
      any_isEmptyTest_nodesEach (c :: cs), hasEmptyIn]
    rfl
  | between e low high _ => by
    rw [nodes, List.any_cons, List.any_append, List.any_append, any_isEmptyTest_nodes e,
      any_isEmptyTest_nodes low, any_isEmptyTest_nodes high, hasEmptyIn]
    rfl

theorem any_isEmptyTest_nodesEach : (es : List Expr) →
    (nodesEach es).any isEmptyTest = anyEmptyIn es
  | [] => rfl
  | e :: es => by
    rw [nodesEach, List.any_append, any_isEmptyTest_nodes e, any_isEmptyTest_nodesEach es,
      anyEmptyIn]

end

theorem isEmptyTest_iff {e : Expr} :
    e.isEmptyTest = true ↔ ∃ f positive, e = inList f [] positive := by
  constructor
  · intro h
    unfold isEmptyTest at h
    split at h
    · exact ⟨_, _, rfl⟩
    · cases h
  · rintro ⟨f, positive, rfl⟩
    rfl

theorem violations_eq_nil_iff {e : Expr} :
    e.violations = [] ↔ ∀ f positive, inList f [] positive ∉ e.nodes := by
  rw [violations]
  constructor
  · intro h f positive hmem
    rw [if_pos (List.any_eq_true.mpr ⟨_, hmem, rfl⟩)] at h
    cases h
  · intro h
    refine if_neg fun hany => ?_
    obtain ⟨f, hf, htest⟩ := List.any_eq_true.mp hany
    obtain ⟨g, positive, rfl⟩ := isEmptyTest_iff.mp htest
    exact h g positive hf

theorem hasEmptyIn_all (es : List Expr) : (all es).hasEmptyIn = es.any hasEmptyIn := by
  have hfold (acc : Expr) (es : List Expr) :
      (es.foldl (fun left right => binary left .and right) acc).hasEmptyIn =
        (acc.hasEmptyIn || es.any hasEmptyIn) := by
    induction es generalizing acc with
    | nil => exact (Bool.or_false _).symm
    | cons f fs ih => rw [List.foldl_cons, ih, hasEmptyIn, List.any_cons, Bool.or_assoc]
  cases es with
  | nil => rfl
  | cons e es => exact hfold e es

end Expr

/-! ### Joins and the tables that they hang below -/

namespace Join

mutual

theorem violations_eq_walk (parent : TableRef) : (j : Join) →
    j.violations parent = (j.walk parent).flatMap fun step => step.2.ownViolations step.1
  | ⟨_, _, right, _, children⟩ => by
    rw [violations, walk, List.flatMap_cons, violationsAll_eq_walkAll right children]

theorem violationsAll_eq_walkAll (parent : TableRef) : (js : List Join) →
    violationsAll parent js =
      (walkAll parent js).flatMap fun step => step.2.ownViolations step.1
  | [] => rfl
  | j :: js => by
    rw [violationsAll, walkAll, List.flatMap_append, violations_eq_walk parent j,
      violationsAll_eq_walkAll parent js]

end

theorem walk_eq (t : TableRef) (j : Join) : j.walk t = (t, j) :: walkAll j.right j.children := by
  cases j
  rfl

mutual

theorem hangs_of_mem_walk {t parent : TableRef} {k : Join} {js : List Join} :
    (j : Join) → j ∈ js → (parent, k) ∈ j.walk t → Hangs t js parent k
  | j@⟨name, left, right, condition, children⟩, hj, h => by
    rw [walk, List.mem_cons] at h
    obtain h | h := h
    · cases h
      exact .top hj
    · exact .under hj (hangs_of_mem_walkAll children (fun _ hc => hc) h)

theorem hangs_of_mem_walkAll {t parent : TableRef} {k : Join} {js : List Join} :
    (ls : List Join) → (∀ j ∈ ls, j ∈ js) → (parent, k) ∈ walkAll t ls → Hangs t js parent k
  | [], _, h => by cases h
  | j :: ls, hls, h => by
    rw [walkAll, List.mem_append] at h
    obtain h | h := h
    · exact hangs_of_mem_walk j (hls j List.mem_cons_self) h
    · exact hangs_of_mem_walkAll ls (fun k hk => hls k (List.mem_cons_of_mem _ hk)) h

end

/-- The joins that are walked are those that hang below a table. -/
theorem mem_walkAll_iff {t parent : TableRef} {js : List Join} {k : Join} :
    (parent, k) ∈ walkAll t js ↔ Hangs t js parent k := by
  constructor
  · exact hangs_of_mem_walkAll js fun _ hj => hj
  · intro h
    induction h with
    | top hj =>
      rw [walkAll_eq_flatMap]
      refine List.mem_flatMap.mpr ⟨_, hj, ?_⟩
      rw [walk_eq]
      exact List.mem_cons_self
    | under hj _ ih =>
      rw [walkAll_eq_flatMap]
      refine List.mem_flatMap.mpr ⟨_, hj, ?_⟩
      rw [walk_eq]
      exact List.mem_cons_of_mem _ ih

theorem ownViolations_eq_nil_iff {parent : TableRef} {j : Join} :
    j.ownViolations parent = [] ↔ j.left = parent.table ∧
      ∃ e, j.condition parent j.right = .ok e ∧ e.violations = [] := by
  rw [ownViolations]
  by_cases hleft : j.left = parent.table
  · rw [if_pos hleft]
    cases j.condition parent j.right with
    | ok e => simp [hleft]
    | error e => simp
  · simp [hleft]

end Join

/-! ### The queries without violations -/

namespace SelectItem

theorem violations_eq_nil_iff {item : SelectItem} : item.violations = [] ↔
    (∀ e, item = .expr e → e.violations = []) ∧
      ∀ e aliasName, item = .aliased e aliasName → e.violations = [] := by
  cases item <;> simp [violations]

theorem groupViolations_eq_nil_iff {item : SelectItem} : item.groupViolations = [] ↔
    (∀ e, item = .expr e → e.violations = []) ∧ ∀ e aliasName, item ≠ .aliased e aliasName := by
  cases item <;> simp [groupViolations, violations]

end SelectItem

namespace Query

/-- The violations of a query are those of its clauses. -/
theorem violations_eq_nil_iff_clauses {q : Query} : q.violations = [] ↔
    q.selected ≠ [] ∧ (∀ item ∈ q.selected, item.violations = []) ∧
      (∀ parent j, Join.Hangs q.source q.joins parent j → j.ownViolations parent = []) ∧
      (∀ e ∈ q.filters, e.violations = []) ∧ (∀ item ∈ q.groups, item.groupViolations = []) ∧
      (∀ e ∈ q.groupFilters, e.violations = []) ∧ ∀ o ∈ q.orders, o.expr.violations = [] := by
  have hselected : (if q.selected.isEmpty then [Error.emptySelect] else []) = [] ↔
      q.selected ≠ [] := by
    cases q.selected <;> simp
  simp only [violations, List.append_eq_nil_iff, List.flatMap_eq_nil_iff, hselected,
    Join.violationsAll_eq_walkAll, Prod.forall, Join.mem_walkAll_iff, and_assoc]

/-- Without violations, no expression that a query evaluates has one. -/
theorem Evaluates.violations_eq_nil {q : Query} (h : q.violations = []) {e : Expr}
    (he : q.Evaluates e) : e.violations = [] := by
  obtain ⟨-, hitems, hjoins, hfilters, hgroups, hgroupFilters, horders⟩ :=
    violations_eq_nil_iff_clauses.mp h
  cases he with
  | item h => exact (SelectItem.violations_eq_nil_iff.mp (hitems _ h)).1 e rfl
  | namedItem h => exact (SelectItem.violations_eq_nil_iff.mp (hitems _ h)).2 e _ rfl
  | predicate h he =>
    obtain ⟨-, e', he', hnone⟩ := Join.ownViolations_eq_nil_iff.mp (hjoins _ _ h)
    cases he.symm.trans he'
    exact hnone
  | filter h => exact hfilters e h
  | group h => exact (SelectItem.groupViolations_eq_nil_iff.mp (hgroups _ h)).1 e rfl
  | groupFilter h => exact hgroupFilters e h
  | order h => exact horders _ h

theorem writable_of_violations_eq_nil {q : Query} (h : q.violations = []) : q.Writable := by
  obtain ⟨hselected, -, hjoins, -, hgroups, -, -⟩ := violations_eq_nil_iff_clauses.mp h
  refine ⟨hselected, fun e aliasName hmem => ?_, fun parent j hj => ?_, fun parent j hj => ?_,
    fun e he => Expr.violations_eq_nil_iff.mp (he.violations_eq_nil h)⟩
  · exact (SelectItem.groupViolations_eq_nil_iff.mp (hgroups _ hmem)).2 e aliasName rfl
  · exact (Join.ownViolations_eq_nil_iff.mp (hjoins parent j hj)).1
  · obtain ⟨-, e, he, -⟩ := Join.ownViolations_eq_nil_iff.mp (hjoins parent j hj)
    exact ⟨e, he⟩

theorem Writable.violations_eq_nil {q : Query} (h : q.Writable) : q.violations = [] := by
  have hnone (e : Expr) (he : q.Evaluates e) : e.violations = [] :=
    Expr.violations_eq_nil_iff.mpr (h.candidates_ne_nil e he)
  refine violations_eq_nil_iff_clauses.mpr ⟨h.selected_ne_nil, fun item hitem => ?_,
    fun parent j hj => ?_, fun e he => hnone e (.filter he), fun item hitem => ?_,
    fun e he => hnone e (.groupFilter he), fun o ho => hnone o.expr (.order ho)⟩
  · refine SelectItem.violations_eq_nil_iff.mpr ⟨?_, ?_⟩
    · rintro e rfl
      exact hnone e (.item hitem)
    · rintro e aliasName rfl
      exact hnone e (.namedItem hitem)
  · obtain ⟨e, he⟩ := h.joins_succeed parent j hj
    exact Join.ownViolations_eq_nil_iff.mpr
      ⟨h.joins_placed parent j hj, e, he, hnone e (.predicate hj he)⟩
  · refine SelectItem.groupViolations_eq_nil_iff.mpr ⟨?_, ?_⟩
    · rintro e rfl
      exact hnone e (.group hitem)
    · rintro e aliasName rfl
      exact h.groups_unnamed e aliasName hitem

/-- A query without violations is one that can be compiled, and the other way round. -/
theorem violations_eq_nil_iff {q : Query} : q.violations = [] ↔ q.Writable :=
  ⟨writable_of_violations_eq_nil, Writable.violations_eq_nil⟩

end Query

/-! ### Reporting the first violation -/

/-- The step fails if there is a violation, with the first of them, and succeeds otherwise. -/
def Reports {α : Type} (x : Except Error α) (violations : List Error) : Prop :=
  ∀ e, x = .error e ↔ violations.head? = some e

namespace Reports

theorem ok {α : Type} (a : α) : Reports (.ok a) [] := fun e => by simp

theorem error {α : Type} (e : Error) (violations : List Error) :
    Reports (.error e : Except Error α) (e :: violations) := fun e' => by simp

/-- A step with violations fails, and one without does not. -/
theorem cases {α : Type} {x : Except Error α} {violations : List Error}
    (h : Reports x violations) :
    (∃ e rest, x = .error e ∧ violations = e :: rest) ∨ ∃ a, x = .ok a ∧ violations = [] := by
  cases violations with
  | nil =>
    cases x with
    | ok a => exact Or.inr ⟨a, rfl, rfl⟩
    | error e => cases (h e).mp rfl
  | cons e rest => exact Or.inl ⟨e, rest, (h e).mpr rfl, rfl⟩

theorem exists_ok_iff {α : Type} {x : Except Error α} {violations : List Error}
    (h : Reports x violations) : (∃ a, x = .ok a) ↔ violations = [] := by
  obtain ⟨e, rest, rfl, rfl⟩ | ⟨a, rfl, rfl⟩ := h.cases <;> simp

/-- The violations of a step come before those of the steps after it. -/
theorem bind {α β : Type} {x : Except Error α} {f : α → Except Error β} {first rest : List Error}
    (hx : Reports x first) (hf : ∀ a, Reports (f a) rest) : Reports (x >>= f) (first ++ rest) := by
  obtain ⟨e, more, rfl, rfl⟩ | ⟨a, rfl, rfl⟩ := hx.cases
  · exact error e (more ++ rest)
  · exact hf a

theorem map {α β : Type} {x : Except Error α} {violations : List Error} (f : α → β)
    (hx : Reports x violations) : Reports (f <$> x) violations := by
  obtain ⟨e, rest, rfl, rfl⟩ | ⟨a, rfl, rfl⟩ := hx.cases
  · exact error e rest
  · exact ok (f a)

/-- The violations along a list come entry by entry. -/
theorem mapM {α β : Type} {f : α → Except Error β} {violations : α → List Error}
    (hf : ∀ a, Reports (f a) (violations a)) (as : List α) :
    Reports (as.mapM f) (as.flatMap violations) := by
  induction as with
  | nil => exact ok []
  | cons a as ih =>
    rw [List.mapM_cons, List.flatMap_cons]
    refine (hf a).bind fun b => ?_
    exact ih.map (b :: ·)

end Reports

theorem Expr.reports_checked (e : Expr) : Reports e.checked e.violations := by
  rw [checked, violations, any_isEmptyTest_nodes]
  by_cases h : e.hasEmptyIn = true
  · rw [if_pos h, if_pos h]
    exact .error .emptyInList []
  · rw [if_neg h, if_neg h]
    exact .ok e

theorem SelectItem.reports_outputs (item : SelectItem) : Reports item.outputs item.violations := by
  cases item with
  | expr e => exact e.reports_checked.map fun e => [OutputItem.mk e none]
  | aliased e aliasName => exact e.reports_checked.map fun e => [OutputItem.mk e (some aliasName)]
  | columns t => exact .ok t.outputs
  | join j => exact .ok j.outputs

theorem SelectItem.reports_groups (item : SelectItem) :
    Reports item.groups item.groupViolations := by
  cases item with
  | aliased e aliasName => exact .error .aliasedGroupItem []
  | expr e => exact (reports_outputs (.expr e)).map fun os => os.map OutputItem.expr
  | columns t => exact .ok (t.outputs.map OutputItem.expr)
  | join j => exact .ok (j.outputs.map OutputItem.expr)

theorem Join.reports_clause (parent : TableRef) (j : Join) :
    Reports (j.clause parent) (j.ownViolations parent) := by
  rw [clause, predicate, ownViolations]
  by_cases hleft : j.left = parent.table
  · rw [if_pos hleft, if_pos hleft]
    cases j.condition parent j.right with
    | ok e => exact e.reports_checked.map (JoinClause.mk j.right.clause)
    | error e => exact .error e []
  · rw [if_neg hleft, if_neg hleft]
    exact .error _ []

theorem OrderItem.reports_clause (o : OrderItem) : Reports o.clause o.expr.violations :=
  o.expr.reports_checked.map fun e => OrderClause.mk e o.direction.keyword

theorem Expr.head?_flatMap_violations (es : List Expr) :
    (es.flatMap violations).head? = if es.any hasEmptyIn then some .emptyInList else none := by
  induction es with
  | nil => rfl
  | cons e es ih =>
    rw [List.flatMap_cons, List.any_cons, violations, any_isEmptyTest_nodes]
    by_cases h : e.hasEmptyIn = true
    · simp [h]
    · simpa [h] using ih

/-- Predicates are checked together, and fail for one reason only. -/
theorem reports_conjunction (es : List Expr) :
    Reports (conjunction es) (es.flatMap Expr.violations) := by
  cases es with
  | nil => exact .ok none
  | cons e es =>
    have hall : Reports (Expr.all (e :: es)).checked ((e :: es).flatMap Expr.violations) := by
      intro err
      rw [Expr.head?_flatMap_violations, ← Expr.hasEmptyIn_all, Expr.checked]
      by_cases h : (Expr.all (e :: es)).hasEmptyIn = true <;> simp [h]
    exact hall.map some

namespace Query

theorem reports_outputs (q : Query) : Reports q.outputs
    ((if q.selected.isEmpty then [.emptySelect] else []) ++
      q.selected.flatMap SelectItem.violations) := by
  rw [outputs]
  by_cases h : q.selected.isEmpty = true
  · rw [if_pos h, if_pos h]
    exact .error .emptySelect _
  · rw [if_neg h, if_neg h]
    exact (Reports.mapM SelectItem.reports_outputs q.selected).map List.flatten

theorem reports_joinClauses (q : Query) :
    Reports q.joinClauses (Join.violationsAll q.source q.joins) := by
  rw [joinClauses, Join.violationsAll_eq_walkAll]
  exact .mapM (fun step => step.2.reports_clause step.1) _

theorem reports_groupList (q : Query) :
    Reports q.groupList (q.groups.flatMap SelectItem.groupViolations) := by
  rw [groupList]
  by_cases h : q.groups.isEmpty = true
  · rw [if_pos h, List.isEmpty_iff.mp h]
    exact .ok none
  · rw [if_neg h]
    exact (Reports.mapM SelectItem.reports_groups q.groups).map fun es => some es.flatten

/-- Resolving a query fails with its first violation. -/
theorem reports_statement (q : Query) : Reports q.statement q.violations := by
  -- one step for each list of violations, the first two of which are those of the select list
  simp only [violations, List.append_assoc]
  rw [← List.append_assoc]
  refine q.reports_outputs.bind fun items => q.reports_joinClauses.bind fun joins => ?_
  refine (reports_conjunction q.filters).bind fun filter => ?_
  refine q.reports_groupList.bind fun groups => ?_
  refine (reports_conjunction q.groupFilters).bind fun groupFilter => ?_
  exact (Reports.mapM OrderItem.reports_clause q.orders).map _

/-- For every context alike, a query compiles exactly if it is writable: its select list has an
item, no item of its group list has a name, every join starts at the table that it hangs below and
has a condition that succeeds, and no membership test that it evaluates is without candidates. Any
other query fails with the first of its violations. -/
theorem compile_outcome (q : Query) : (∀ ctx, (∃ c, q.compile ctx = .ok c) ↔ q.Writable) ∧
    ∀ ctx e, q.compile ctx = .error e ↔ q.violations.head? = some e := by
  have hcompile (ctx : Context) : Reports (q.compile ctx) q.violations :=
    q.reports_statement.map (Statement.render ctx)
  refine ⟨fun ctx => ?_, hcompile⟩
  rw [(hcompile ctx).exists_ok_iff, violations_eq_nil_iff]

end Query

end SqlCompose
