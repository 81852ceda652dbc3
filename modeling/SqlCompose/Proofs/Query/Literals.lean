import SqlCompose.Proofs.Loader.Statements
import SqlCompose.Proofs.Query.Alike
import SqlCompose.Proofs.Query.Outcome

/-!
# Queries with other literals

Two queries are related by a relation of values when they are the same up to their literals, and
the literals that stand at the same place of the two are in the relation. The conditions of joins
are compared by the predicates that they come to. Nothing that decides whether a query compiles, or
how it is written, looks into a literal: related queries fail alike, or have one text and bindings
in the relation, place by place. The queries of a relation for two lists of parents are of this
kind, which differ in the keys of the parents alone.

## Main definitions

* `Expr.Related`, `SelectItem.Related`, `Query.Related`: expressions, entries and queries that are
  the same up to literals in a relation.
* `Mask.values`: hides the bound values.

## Main results

* `Query.Alike.violations_eq`: whether alike queries compile, and with which error they fail, does
  not depend on what a mask hides.
* `Token.textOf_masked_values`: the text of tokens does not depend on the values that they bind.
* `Query.compile_related`: the texts and the bindings of related queries.
-/

namespace SqlCompose

/-- Hides the bound values. -/
def Mask.values : Mask := ⟨id, fun _ => .null⟩

/-! ### The same up to literals -/

namespace Expr

mutual

/-- Two expressions of one form and over the same columns, whose literals are in the relation one
by one. -/
inductive Related (R : Value → Value → Prop) : Expr → Expr → Prop
  | column (c) : Related R (.column c) (.column c)
  | literal {v v'} (h : R v v') : Related R (.literal v) (.literal v')
  | not {e e'} (h : Related R e e') : Related R (.not e) (.not e')
  | binary {left left' right right'} (op) (hl : Related R left left')
      (hr : Related R right right') : Related R (.binary left op right) (.binary left' op right')
  | nullTest {e e'} (positive) (h : Related R e e') :
      Related R (.nullTest e positive) (.nullTest e' positive)
  | inList {e e' es es'} (positive) (h : Related R e e') (hs : RelatedEach R es es') :
      Related R (.inList e es positive) (.inList e' es' positive)
  | between {e e' low low' high high'} (positive) (h : Related R e e') (hlow : Related R low low')
      (hhigh : Related R high high') :
      Related R (.between e low high positive) (.between e' low' high' positive)
  | parens {e e'} (h : Related R e e') : Related R (.parens e) (.parens e')

/-- Expressions that are related one by one. -/
inductive RelatedEach (R : Value → Value → Prop) : List Expr → List Expr → Prop
  | nil : RelatedEach R [] []
  | cons {e e' es es'} (h : Related R e e') (hs : RelatedEach R es es') :
      RelatedEach R (e :: es) (e' :: es')

end

end Expr

/-- Two conditions of joins that fail with one error, or come to related predicates. -/
inductive RelatedConditions (R : Value → Value → Prop) :
    Except Error Expr → Except Error Expr → Prop
  | error (e) : RelatedConditions R (.error e) (.error e)
  | ok {e e'} (h : e.Related R e') : RelatedConditions R (.ok e) (.ok e')

/-- Two entries of a select or group list that are the same up to literals. A join stands for the
columns of its tables there. -/
inductive SelectItem.Related (R : Value → Value → Prop) : SelectItem → SelectItem → Prop
  | expr {e e'} (h : e.Related R e') : Related R (.expr e) (.expr e')
  | aliased {e e'} (aliasName) (h : e.Related R e') :
      Related R (.aliased e aliasName) (.aliased e' aliasName)
  | columns (t) : Related R (.columns t) (.columns t)
  | join {j j'} (h : j.Alike .values j') : Related R (.join j) (.join j')

/-- Two queries that are the same up to literals in the relation: those of their lists, and those
that the conditions of their joins come to. -/
structure Query.Related (R : Value → Value → Prop) (q q' : Query) : Prop where
  source : q.source = q'.source
  selected : List.Forall₂ (SelectItem.Related R) q.selected q'.selected
  joins : Join.AlikeAll .values q.joins q'.joins
  conditions : List.Forall₂ (fun step step' =>
      RelatedConditions R (step.2.predicate step.1) (step'.2.predicate step'.1))
    (Join.walkAll q.source q.joins) (Join.walkAll q'.source q'.joins)
  filters : List.Forall₂ (Expr.Related R) q.filters q'.filters
  groups : List.Forall₂ (SelectItem.Related R) q.groups q'.groups
  groupFilters : List.Forall₂ (Expr.Related R) q.groupFilters q'.groupFilters
  orders : List.Forall₂ (fun o o' => o.expr.Related R o'.expr ∧ o.direction = o'.direction)
    q.orders q'.orders
  limit : q.limit = q'.limit
  offset : q.offset = q'.offset

/-! ### Violations of alike queries -/

section

variable {m : Mask}

namespace Expr

mutual

theorem hasEmptyIn_masked : (e : Expr) → (e.masked m).hasEmptyIn = e.hasEmptyIn
  | column _ | literal _ => rfl
  | not e | nullTest e _ | parens e => hasEmptyIn_masked e
  | binary left _ right => by
    rw [masked, hasEmptyIn, hasEmptyIn, hasEmptyIn_masked left, hasEmptyIn_masked right]
  | inList e candidates _ => by
    have hempty : (maskedEach m candidates).isEmpty = candidates.isEmpty := by
      cases candidates <;> rfl
    rw [masked, hasEmptyIn, hasEmptyIn, hempty, hasEmptyIn_masked e, anyEmptyIn_masked candidates]
  | between e low high _ => by
    rw [masked, hasEmptyIn, hasEmptyIn, hasEmptyIn_masked e, hasEmptyIn_masked low,
      hasEmptyIn_masked high]

theorem anyEmptyIn_masked : (es : List Expr) → anyEmptyIn (maskedEach m es) = anyEmptyIn es
  | [] => rfl
  | e :: es => by
    rw [maskedEach, anyEmptyIn, anyEmptyIn, hasEmptyIn_masked e, anyEmptyIn_masked es]

end

/-- What keeps an expression from being written is seen once it is masked. -/
theorem violations_eq_of_masked_eq {e e' : Expr} (h : e.masked m = e'.masked m) :
    e.violations = e'.violations := by
  rw [violations, violations, any_isEmptyTest_nodes, any_isEmptyTest_nodes, ← hasEmptyIn_masked e,
    h, hasEmptyIn_masked]

theorem flatMap_violations_eq {es es' : List Expr} (h : es.map (masked m) = es'.map (masked m)) :
    es.flatMap violations = es'.flatMap violations := by
  rw [← List.forall₂_eq_eq_eq, List.forall₂_map_left_iff, List.forall₂_map_right_iff] at h
  exact flatMap_of_forall₂ (fun _ _ hmasked => violations_eq_of_masked_eq hmasked) h

end Expr

theorem SelectItem.Alike.violations_eq {item item' : SelectItem} (h : item.Alike m item') :
    item.violations = item'.violations ∧ item.groupViolations = item'.groupViolations := by
  cases h with
  | expr he => exact ⟨Expr.violations_eq_of_masked_eq he, Expr.violations_eq_of_masked_eq he⟩
  | aliased he _ => exact ⟨Expr.violations_eq_of_masked_eq he, rfl⟩
  | columns _ | join _ => exact ⟨rfl, rfl⟩

theorem Join.ownViolations_eq (parent : TableRef) (j : Join) : j.ownViolations parent =
    match j.predicate parent with
    | .ok e => e.violations
    | .error e => [e] := by
  rw [ownViolations, predicate]
  split <;> rfl

/-- Alike queries have the same violations. -/
theorem Query.Alike.violations_eq {q q' : Query} (h : q.Alike m q') :
    q.violations = q'.violations := by
  have hempty : q.selected.isEmpty = q'.selected.isEmpty := by
    rw [Bool.eq_iff_iff, List.isEmpty_iff_length_eq_zero, List.isEmpty_iff_length_eq_zero,
      h.selected.length_eq]
  have hselected : q.selected.flatMap SelectItem.violations =
      q'.selected.flatMap SelectItem.violations :=
    flatMap_of_forall₂ (fun _ _ hitem => hitem.violations_eq.1) h.selected
  have hgroups : q.groups.flatMap SelectItem.groupViolations =
      q'.groups.flatMap SelectItem.groupViolations :=
    flatMap_of_forall₂ (fun _ _ hitem => hitem.violations_eq.2) h.groups
  have hjoins : Join.violationsAll q.source q.joins = Join.violationsAll q'.source q'.joins := by
    rw [Join.violationsAll_eq_walkAll, Join.violationsAll_eq_walkAll]
    refine flatMap_of_forall₂ (fun step step' hstep => ?_) h.conditions
    rw [Join.ownViolations_eq, Join.ownViolations_eq]
    match step.2.predicate step.1, step'.2.predicate step'.1, hstep with
    | .ok e, .ok e', hmasked => exact Expr.violations_eq_of_masked_eq (Except.ok.inj hmasked)
    | .error e, .error e', herror => exact congrArg ([·]) (Except.error.inj herror)
  have horders : (q.orders.flatMap fun o => o.expr.violations) =
      q'.orders.flatMap fun o => o.expr.violations := by
    have hmasked := congrArg (List.map OrderItem.expr) h.orders
    rw [List.map_map, List.map_map] at hmasked
    rw [← List.flatMap_map OrderItem.expr, ← List.flatMap_map OrderItem.expr]
    exact Expr.flatMap_violations_eq (m := m) (by rw [List.map_map, List.map_map]; exact hmasked)
  rw [violations, violations, hempty, hselected, hjoins, Expr.flatMap_violations_eq h.filters,
    hgroups, Expr.flatMap_violations_eq h.groupFilters, horders]

end

/-! ### Related queries -/

section

variable {R : Value → Value → Prop}

namespace Expr

mutual

theorem Related.masked_eq {e e' : Expr} : e.Related R e' → e.masked .values = e'.masked .values
  | .column c => rfl
  | .literal _ => rfl
  | .not h => congrArg Expr.not h.masked_eq
  | .binary op hl hr => by rw [masked, masked, hl.masked_eq, hr.masked_eq]
  | .nullTest positive h => by rw [masked, masked, h.masked_eq]
  | .inList positive h hs => by rw [masked, masked, h.masked_eq, hs.maskedEach_eq]
  | .between positive h hlow hhigh => by
    rw [masked, masked, h.masked_eq, hlow.masked_eq, hhigh.masked_eq]
  | .parens h => congrArg Expr.parens h.masked_eq

theorem RelatedEach.maskedEach_eq {es es' : List Expr} :
    RelatedEach R es es' → maskedEach .values es = maskedEach .values es'
  | .nil => rfl
  | .cons h hs => congrArg₂ List.cons h.masked_eq hs.maskedEach_eq

end

mutual

theorem Related.forall₂_literals {e e' : Expr} :
    e.Related R e' → List.Forall₂ R e.literals e'.literals
  | .column c => .nil
  | .literal h => .cons h .nil
  | .not h | .nullTest _ h | .parens h => h.forall₂_literals
  | .binary op hl hr => List.rel_append hl.forall₂_literals hr.forall₂_literals
  | .inList positive h hs => List.rel_append h.forall₂_literals hs.forall₂_literalsEach
  | .between positive h hlow hhigh =>
    List.rel_append (List.rel_append h.forall₂_literals hlow.forall₂_literals)
      hhigh.forall₂_literals

theorem RelatedEach.forall₂_literalsEach {es es' : List Expr} :
    RelatedEach R es es' → List.Forall₂ R (literalsEach es) (literalsEach es')
  | .nil => .nil
  | .cons h hs => List.rel_append h.forall₂_literals hs.forall₂_literalsEach

end

end Expr

theorem SelectItem.Related.alike {item item' : SelectItem} (h : item.Related R item') :
    item.Alike .values item' := by
  cases h with
  | expr h => exact .expr h.masked_eq
  | aliased aliasName h => exact .aliased h.masked_eq rfl
  | columns t => exact .columns ⟨rfl, rfl⟩
  | join h => exact .join h

theorem SelectItem.Related.forall₂_literals {item item' : SelectItem} (h : item.Related R item') :
    List.Forall₂ R item.literals item'.literals := by
  cases h with
  | expr h | aliased aliasName h => exact h.forall₂_literals
  | columns t | join h => exact .nil

theorem RelatedConditions.masked_eq {x x' : Except Error Expr} (h : RelatedConditions R x x') :
    x.map (Expr.masked .values) = x'.map (Expr.masked .values) := by
  cases h with
  | error e => rfl
  | ok h => exact congrArg Except.ok h.masked_eq

theorem RelatedConditions.forall₂_literals {x x' : Except Error Expr}
    (h : RelatedConditions R x x') :
    List.Forall₂ R (conditionLiterals x) (conditionLiterals x') := by
  cases h with
  | error e => exact .nil
  | ok h => exact h.forall₂_literals

namespace Query

/-- Related queries are alike, once their literals are hidden. -/
theorem Related.alike {q q' : Query} (h : q.Related R q') : q.Alike .values q' := by
  have hmasked {es es' : List Expr} (hes : List.Forall₂ (Expr.Related R) es es') :
      es.map (Expr.masked .values) = es'.map (Expr.masked .values) := by
    rw [← List.forall₂_eq_eq_eq, List.forall₂_map_left_iff, List.forall₂_map_right_iff]
    exact hes.imp fun _ _ he => he.masked_eq
  exact {
    source := h.source ▸ ⟨rfl, rfl⟩
    selected := h.selected.imp fun _ _ hitem => hitem.alike
    joins := h.joins
    conditions := h.conditions.imp fun _ _ hcondition => hcondition.masked_eq
    filters := hmasked h.filters
    groups := h.groups.imp fun _ _ hitem => hitem.alike
    groupFilters := hmasked h.groupFilters
    orders := by
      rw [← List.forall₂_eq_eq_eq, List.forall₂_map_left_iff, List.forall₂_map_right_iff]
      exact h.orders.imp fun _ _ ho => congrArg₂ OrderItem.mk ho.1.masked_eq ho.2
    limit := h.limit
    offset := h.offset }

/-- The literals of related queries are in the relation, place by place. -/
theorem Related.forall₂_literals {q q' : Query} (h : q.Related R q') :
    List.Forall₂ R q.literals q'.literals := by
  have hitems {items items' : List SelectItem}
      (hs : List.Forall₂ (SelectItem.Related R) items items') : List.Forall₂ R
        (items.flatMap SelectItem.literals) (items'.flatMap SelectItem.literals) :=
    List.rel_flatMap hs fun _ _ hitem => hitem.forall₂_literals
  have hexprs {es es' : List Expr} (hs : List.Forall₂ (Expr.Related R) es es') : List.Forall₂ R
      (es.flatMap Expr.literals) (es'.flatMap Expr.literals) :=
    List.rel_flatMap hs fun _ _ he => he.forall₂_literals
  have hjoins : List.Forall₂ R (Join.literalsAll q.source q.joins)
      (Join.literalsAll q'.source q'.joins) := by
    rw [Join.literalsAll_eq_walkAll, Join.literalsAll_eq_walkAll]
    exact List.rel_flatMap h.conditions fun _ _ hcondition => hcondition.forall₂_literals
  have horders : List.Forall₂ R (q.orders.flatMap fun o => o.expr.literals)
      (q'.orders.flatMap fun o => o.expr.literals) :=
    List.rel_flatMap h.orders fun _ _ ho => ho.1.forall₂_literals
  have hrows := List.rel_append (List.rel_append (hitems h.selected) hjoins) (hexprs h.filters)
  have hlists := List.rel_append (List.rel_append hrows (hitems h.groups)) (hexprs h.groupFilters)
  exact List.rel_append hlists horders

end Query

end

/-! ### Texts of related queries -/

namespace Token

theorem textAfter_masked_values (ctx : Context) (index : Nat) (before : Token) (ts : List Token) :
    textAfter ctx index (before.masked .values) (ts.map (masked .values)) =
      textAfter ctx index before ts := by
  induction ts generalizing index before with
  | nil => rfl
  | cons t ts ih =>
    have hspaced : spaced (before.masked .values) (t.masked .values) = spaced before t := by
      cases before <;> cases t <;> rfl
    have htext : (t.masked .values).text ctx index = t.text ctx index := by
      cases t <;> rfl
    have hnext : (t.masked .values).nextIndex index = t.nextIndex index := by
      cases t <;> rfl
    rw [List.map_cons, textAfter, textAfter, hspaced, htext, hnext, ih]

/-- The text of tokens does not depend on the values that they bind. -/
theorem textOf_masked_values (ctx : Context) (ts : List Token) :
    textOf ctx (ts.map (masked .values)) = textOf ctx ts := by
  cases ts with
  | nil => rfl
  | cons t ts =>
    rw [List.map_cons, textOf, textOf, textAfter_masked_values]
    cases t <;> rfl

end Token

/-- Related queries fail with one error, or are written as one text, to which the literals of each
are bound in order. -/
private theorem Query.Related.compile {R : Value → Value → Prop} {q q' : Query}
    (h : q.Related R q') (ctx : Context) :
    (∃ e, q.compile ctx = .error e ∧ q'.compile ctx = .error e) ∨
      ∃ c c', q.compile ctx = .ok c ∧ q'.compile ctx = .ok c' ∧ c.sql = c'.sql ∧
        c.bindings = q.literals ∧ c'.bindings = q'.literals ∧
        List.Forall₂ R c.bindings c'.bindings := by
  have hviolations := h.alike.violations_eq
  obtain ⟨e, rest, hs, hv⟩ | ⟨s, hs, hv⟩ := q.reports_statement.cases
  · have hs' : q'.statement = .error e :=
      (q'.reports_statement e).mpr (by rw [← hviolations, hv]; rfl)
    exact .inl ⟨e, by rw [Query.compile, hs]; rfl, by rw [Query.compile, hs']; rfl⟩
  · obtain ⟨s', hs'⟩ := q'.reports_statement.exists_ok_iff.mpr (hviolations.symm.trans hv)
    have hbindings : (s.render ctx).bindings = q.literals := bindings_statement hs ctx.dialect
    have hbindings' : (s'.render ctx).bindings = q'.literals := bindings_statement hs' ctx.dialect
    have hsql : (s.render ctx).sql = (s'.render ctx).sql := by
      rw [Statement.render, Token.render, Statement.render, Token.render,
        ← Token.textOf_masked_values, ← Statement.tokens_masked, h.alike.masked_eq hs hs',
        Statement.tokens_masked, Token.textOf_masked_values]
    refine .inr ⟨s.render ctx, s'.render ctx, by rw [Query.compile, hs]; rfl,
      by rw [Query.compile, hs']; rfl, hsql, hbindings, hbindings', ?_⟩
    rw [hbindings, hbindings']
    exact h.forall₂_literals

/-- Two queries that are the same up to literals fail with one error in every context, or are
written as one text; the bindings of each are its literals in order, so that two bindings at a place
are related as the literals at that place are. The queries of a batch for two lists of parents of a
model, as many of the one as of the other, fail both, or come relation by relation to one text. -/
theorem Query.compile_related (ctx : Context) :
    (∀ (R : Value → Value → Prop) (q q' : Query), q.Related R q' →
      (∃ e, q.compile ctx = .error e ∧ q'.compile ctx = .error e) ∨
        ∃ c c', q.compile ctx = .ok c ∧ q'.compile ctx = .ok c' ∧ c.sql = c'.sql ∧
          c.bindings = q.literals ∧ c'.bindings = q'.literals ∧
          List.Forall₂ R c.bindings c'.bindings) ∧
    ∀ (l : Loader) (m : Model) (parents parents' : List Record), parents ≠ [] →
      parents.length = parents'.length → (∀ parent ∈ parents ++ parents', parent.model = m) →
      (∃ e e', l.queries m parents = .error e ∧ l.queries m parents' = .error e') ∨
        ∃ queries queries', l.queries m parents = .ok (queries.map some) ∧
          l.queries m parents' = .ok (queries'.map some) ∧
          List.Forall₂ (fun q q' => ∃ c c', q.compile ctx = .ok c ∧ q'.compile ctx = .ok c' ∧
            c.sql = c'.sql) queries queries' := by
  refine ⟨fun R q q' h => h.compile ctx, fun l m parents parents' hne hlen hmodel => ?_⟩
  obtain ⟨hmodel, hmodel'⟩ := List.forall_mem_append.mp hmodel
  have hne' : parents' ≠ [] := by
    rintro rfl
    exact hne (List.eq_nil_of_length_eq_zero hlen)
  have hrejects (r : Relation) : r.Rejects m parents' ↔ r.Rejects m parents := by
    simp only [Relation.Rejects, ne_eq, hne, hne']
  by_cases h : ∃ r ∈ l.relations, r.Rejects m parents
  · obtain ⟨e, he⟩ := Loader.exists_error_of_rejects hmodel h
    obtain ⟨e', he'⟩ := Loader.exists_error_of_rejects hmodel' (by simpa only [hrejects] using h)
    exact .inl ⟨e, e', he, he'⟩
  · have hr : ∀ r ∈ l.relations, ¬r.Rejects m parents := fun r hmem hr => h ⟨r, hmem, hr⟩
    have hr' : ∀ r ∈ l.relations, ¬r.Rejects m parents' := fun r hmem =>
      (hrejects r).not.mpr (hr r hmem)
    refine .inr ⟨l.relations.map fun r => r.keyQuery m parents,
      l.relations.map fun r => r.keyQuery m parents', ?_, ?_, ?_⟩
    · rw [Loader.queries_eq_ok hmodel hne hr, List.map_map]
      rfl
    · rw [Loader.queries_eq_ok hmodel' hne' hr', List.map_map]
      rfl
    · rw [List.forall₂_map_left_iff, List.forall₂_map_right_iff]
      refine List.forall₂_same.mpr fun r hmem => ?_
      have hc := (Relation.compile_keyQuery_of_not_rejects hmodel hne (hr r hmem)).2 ctx
      have hc' := (Relation.compile_keyQuery_of_not_rejects hmodel' hne' (hr' r hmem)).2 ctx
      exact ⟨_, _, hc, hc', by rw [hlen]⟩

/-- A value in a select list, in the condition of a join and among candidates, beside a text that
looks like a statement in the same places; and parents with other keys. -/
theorem Query.compile_related_injection :
    let field (name : String) : Field := ⟨name, .option .text, name, rfl⟩
    let user : Model := ⟨"User", "users", [field "nick"], by simp⟩
    let post : Model := ⟨"Post", "posts", [field "by"], by simp⟩
    let nick : Expr := .column ⟨"users", "nick", "nick"⟩
    let query (v : Value) : Query :=
      let posts := Join.on "posts" "users" (.ofModel post) fun _ right => do
        return .binary (.column (← right.column "by")) .eq (.literal v)
      (((ofTable (.ofModel user)).innerJoin posts).select [.aliased (.literal v) "x"]).filter
        (.not (.inList nick [.literal .null, .parens (.literal v)] true))
    let q := query (.integer 1)
    let q' := query (.text "1); DROP TABLE users; --")
    let R (v v' : Value) : Prop := v = v' ∨ v = .integer 1
    let l : Loader := ⟨[⟨"posts", user, post, "by", "nick", rfl, rfl⟩]⟩
    let parents : List Record := [⟨user, [.none], rfl⟩]
    let parents' : List Record := [⟨user, [.some (.text "?")], rfl⟩]
    let ctx : Context := .ofDialect .mysql
    q.Related R q' ∧ parents ≠ [] ∧ parents.length = parents'.length ∧
      (∀ parent ∈ parents ++ parents', parent.model = user) ∧
      (∃ c c', q.compile ctx = .ok c ∧ q'.compile ctx = .ok c' ∧ c.sql = c'.sql ∧
        c.bindings = q.literals ∧ c'.bindings = q'.literals ∧
        List.Forall₂ R c.bindings c'.bindings) ∧
      ∃ q q', l.queries user parents = .ok [some q] ∧ l.queries user parents' = .ok [some q'] ∧
        ∃ c c', q.compile ctx = .ok c ∧ q'.compile ctx = .ok c' ∧ c.sql = c'.sql := by
  intro field user post nick query q q' R l parents parents' ctx
  have hrelated : q.Related R q' := {
    source := rfl
    selected := .cons (.aliased _ (.literal (.inr rfl))) .nil
    joins := .cons (.node ⟨rfl, rfl⟩ .nil) .nil
    conditions := .cons (.ok (.binary _ (.column _) (.literal (.inr rfl)))) .nil
    filters := .cons (.not (.inList _ (.column _)
      (.cons (.literal (.inl rfl)) (.cons (.parens (.literal (.inr rfl))) .nil)))) .nil
    groups := .nil
    groupFilters := .nil
    orders := .nil
    limit := rfl
    offset := rfl }
  have hmodel : ∀ parent ∈ parents ++ parents', parent.model = user := by simp [parents, parents']
  obtain ⟨hqueries, hloader⟩ := compile_related ctx
  refine ⟨hrelated, List.cons_ne_nil _ _, rfl, hmodel, ?_, ?_⟩
  · obtain ⟨e, he, -⟩ | hc := hqueries R q q' hrelated
    · cases he
    · exact hc
  · obtain ⟨e, -, he, -⟩ | ⟨_, _, hq, hq', h⟩ :=
      hloader l user parents parents' (List.cons_ne_nil _ _) rfl hmodel
    · cases he
    -- the batch has one relation
    · obtain _ | ⟨hc, _ | _⟩ := h
      · cases hq
      · exact ⟨_, _, hq, hq', hc⟩
      · cases hq

end SqlCompose
