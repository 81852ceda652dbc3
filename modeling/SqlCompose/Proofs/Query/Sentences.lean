import SqlCompose.Proofs.Query.Distinct
import SqlCompose.Proofs.Query.Texts
import SqlCompose.Proofs.Sql.SelectGrammar

/-!
# Taking statements apart

The text of a compiled query is a statement of the grammar, and can be taken apart into its clauses
in one way only. The clauses that are found are those of the query: the entries of its lists, the
joins depth first, the conjunctions of its predicates and its bounds. The token run of every
expression is the one that the expression alone is written with, whatever stands around it, and a
clause is there only if the query has something to say in it.

## Main definitions

* `Dialect.writtenLimit`: the limit that a dialect writes, which a lone offset may need.
* `Query.Holds`: the clauses of a query.

## Main results

* `Statement.sentence_tokens`: the tokens of a statement are a sentence of the grammar.
* `Query.compile_clauses`: the text of a compiled query is taken apart into its clauses, uniquely.
-/

namespace SqlCompose

/-! ### The sentence of a statement -/

namespace Sentence

theorem expression_tokens {e : Expr} (h : e.hasEmptyIn = false) :
    Expression (e.tokens.flatMap Token.visible) e.tokens := by
  have hreads : Reads (.chain .or) e.tokens e.readBack :=
    (e.reads_tokens h).loosen (Level.strength_or_le _)
  rw [hreads.flatMap_visible]
  exact .run hreads

theorem listed_commaSeparated {α β : Type} {R : List Token → β → Prop} {f : α → List Token}
    {g : α → β} {xs : List α} (hne : xs ≠ [])
    (h : ∀ x ∈ xs, R ((f x).flatMap Token.visible) (g x)) :
    Listed R ((Token.commaSeparated (xs.map f)).flatMap Token.visible) (xs.map g) := by
  induction xs with
  | nil => exact absurd rfl hne
  | cons x xs ih =>
    obtain ⟨hx, hxs⟩ := List.forall_mem_cons.mp h
    cases xs with
    | nil => exact .one hx
    | cons y ys =>
      have hrest := ih (List.cons_ne_nil _ _) hxs
      have htokens : Token.commaSeparated ((x :: y :: ys).map f) =
        f x ++ .comma :: Token.commaSeparated ((y :: ys).map f) := rfl
      rw [htokens, List.flatMap_append]
      exact .more hx hrest

theorem item_tokens {i : OutputItem} (h : i.expr.hasEmptyIn = false) :
    Item (i.tokens.flatMap Token.visible) ⟨i.expr.tokens, i.aliasName⟩ := by
  obtain ⟨e, aliasName⟩ := i
  rw [OutputItem.tokens, List.flatMap_append]
  cases aliasName with
  | none =>
    rw [aliasTokens, List.flatMap_nil, List.append_nil]
    exact .plain (expression_tokens h)
  | some aliasName => exact .named (expression_tokens h) aliasName

theorem source_tokens (s : SourceClause) : Source (s.tokens.flatMap Token.visible) s := by
  obtain ⟨table, _ | aliasName⟩ := s
  · exact .plain table
  · exact .aliased table aliasName

theorem join_tokens {j : JoinClause} {aliasName : String}
    (halias : j.source.aliasName = some aliasName) (h : j.on.hasEmptyIn = false) :
    Clause Join [.INNER, .JOIN] (j.tokens.flatMap Token.visible)
      ⟨j.source.table, aliasName, j.on.tokens⟩ := by
  obtain ⟨⟨table, _⟩, on⟩ := j
  cases halias
  exact .mk (.mk table aliasName (expression_tokens h))

theorem order_tokens {e : Expr} (h : e.hasEmptyIn = false) (direction : Direction) :
    Order ((OrderClause.tokens ⟨e, direction.keyword⟩).flatMap Token.visible)
      ⟨e.tokens, direction⟩ := by
  rw [OrderClause.tokens, List.flatMap_append]
  exact .mk (expression_tokens h) direction

/-- The conjunction of predicates behind its word, of which there may be none. -/
theorem predicate_tokens {es : List Expr} {o : Option Expr} (h : conjunction es = .ok o)
    (word : Keyword) : Optionally (Clause Expression [word])
      ((predicateTokens word o).flatMap Token.visible) ((conjoined es).map Expr.tokens) := by
  cases es with
  | nil =>
    cases h
    exact .absent
  | cons e es =>
    obtain ⟨f, hf, rfl⟩ := map_eq_ok_iff.mp h
    obtain ⟨hin, rfl⟩ := Expr.eq_of_checked hf
    exact .present (.mk (expression_tokens hin))

end Sentence

/-- The limit that a dialect writes: a lone offset comes with a limit where the dialect takes no
offset without one, a negative limit or the greatest that there is. -/
def Dialect.writtenLimit (d : Dialect) (limit offset : Option UInt64) : Option Int :=
  match limit, offset with
  | some n, _ => some n.toNat
  | none, none => none
  | none, some _ =>
    match d with
    | sqlite => some (-1)
    | mysql => some 18446744073709551615
    | postgresql => none

theorem Sentence.window_tokens (d : Dialect) (limit offset : Option UInt64) :
    ∃ ls ks, (d.windowTokens limit offset).flatMap Token.visible = ls ++ ks ∧
      Optionally (Clause Number [.LIMIT]) ls (d.writtenLimit limit offset) ∧
      Optionally (Clause Number [.OFFSET]) ks (offset.map fun k => (k.toNat : Int)) := by
  have hnumber (word : Keyword) (n : Nat) :
      Optionally (Clause Number [word]) [.keyword word, .number n] (some (n : Int)) :=
    .present (.mk (.plain n))
  have hminus : Optionally (Clause Number [.LIMIT]) [.keyword .LIMIT, .sign .minus, .number 1]
      (some (-1)) := .present (.mk (.negative 1))
  cases limit with
  | some n =>
    cases offset with
    | none => exact ⟨_, _, (List.append_nil _).symm, hnumber .LIMIT n.toNat, .absent⟩
    | some k => exact ⟨[_, _], _, rfl, hnumber .LIMIT n.toNat, hnumber .OFFSET k.toNat⟩
  | none =>
    cases offset with
    | none => exact ⟨_, _, rfl, .absent, .absent⟩
    | some k =>
      cases d with
      | sqlite => exact ⟨[_, _, _], _, rfl, hminus, hnumber .OFFSET k.toNat⟩
      | mysql => exact ⟨[_, _], _, rfl, hnumber .LIMIT _, hnumber .OFFSET k.toNat⟩
      | postgresql => exact ⟨[], _, rfl, .absent, hnumber .OFFSET k.toNat⟩

/-! ### The clauses of a query -/

/-- What a join below a table is written as: its table under its alias, on the tokens of its
condition between the two. -/
def Join.WrittenAs (parent : TableRef) (j : Join) (run : JoinRun) : Prop :=
  ∃ e aliasName, j.predicate parent = .ok e ∧ j.right.aliasName = some aliasName ∧
    run = ⟨j.right.table, aliasName, e.tokens⟩

theorem Sentence.joins_tokens {steps : List (TableRef × SqlCompose.Join)}
    {clauses : List JoinClause}
    (h : List.Forall₂ (fun step clause => step.2.clause step.1 = .ok clause) steps clauses)
    (haliases : ∀ step ∈ steps, ∃ aliasName, step.2.right.aliasName = some aliasName) :
    ∃ runs, List.Forall₂ (fun step run => step.2.WrittenAs step.1 run) steps runs ∧
      Repeated (Clause Join [.INNER, .JOIN])
        ((clauses.flatMap JoinClause.tokens).flatMap Token.visible) runs := by
  induction h with
  | nil => exact ⟨[], .nil, .done⟩
  | @cons step clause _ _ hclause _ ih =>
    obtain ⟨⟨aliasName, halias⟩, hrest⟩ := List.forall_mem_cons.mp haliases
    obtain ⟨runs, hruns, hsentence⟩ := ih hrest
    obtain ⟨e, he, hchecked⟩ := bind_eq_ok_iff.mp hclause
    obtain ⟨f, hf, hok⟩ := bind_eq_ok_iff.mp hchecked
    obtain ⟨hin, rfl⟩ := Expr.eq_of_checked hf
    cases hok
    refine ⟨_, .cons ⟨f, aliasName, he, halias, rfl⟩ hruns, ?_⟩
    rw [List.flatMap_cons, List.flatMap_append]
    exact .more (join_tokens halias hin) hsentence

namespace Query

/-- The clauses are those of the query: the entries of its select list, its source, its joins depth
first, the conjunction of its predicates, the entries of its group list, the conjunction of its
predicates on groups, its order list, and its bounds as the dialect writes them. -/
structure Holds (q : Query) (d : Dialect) (p : Clauses) : Prop where
  items : p.items = (q.selected.flatMap SelectItem.entries).map fun i =>
    ⟨i.expr.tokens, i.aliasName⟩
  source : p.source = q.source.clause
  joins : List.Forall₂ (fun step run => step.2.WrittenAs step.1 run)
    (Join.walkAll q.source q.joins) p.joins
  filter : p.filter = (conjoined q.filters).map Expr.tokens
  groups : p.groups = if q.groups = [] then none else
    some ((q.groups.flatMap SelectItem.entries).map fun i => ⟨i.expr.tokens, none⟩)
  groupFilter : p.groupFilter = (conjoined q.groupFilters).map Expr.tokens
  orders : p.orders = if q.orders = [] then none else
    some (q.orders.map fun o => ⟨o.expr.tokens, o.direction⟩)
  limit : p.limit = d.writtenLimit q.limit q.offset
  offset : p.offset = q.offset.map fun k => (k.toNat : Int)

theorem conjoined_eq_none_iff {es : List Expr} : conjoined es = none ↔ es = [] := by
  cases es <;> simp [conjoined]

/-- A clause is absent if the query has nothing for it, and only then. -/
theorem Holds.absent_iff {q : Query} {d : Dialect} {p : Clauses} (h : q.Holds d p) :
    (p.joins = [] ↔ q.joins = []) ∧ (p.filter = none ↔ q.filters = []) ∧
    (p.groups = none ↔ q.groups = []) ∧ (p.groupFilter = none ↔ q.groupFilters = []) ∧
    (p.orders = none ↔ q.orders = []) ∧
    (p.limit = none ∧ p.offset = none ↔ q.limit = none ∧ q.offset = none) := by
  refine ⟨?_, ?_, ?_, ?_, ?_, ?_⟩
  · have hlength := h.joins.length_eq
    rw [← List.length_eq_zero_iff, ← hlength, List.length_eq_zero_iff]
    rcases q.joins with _ | ⟨⟨_, _, _, _, _⟩, js⟩ <;> simp [Join.walkAll, Join.walk]
  · rw [h.filter, Option.map_eq_none_iff, conjoined_eq_none_iff]
  · rw [h.groups]
    split <;> simp [*]
  · rw [h.groupFilter, Option.map_eq_none_iff, conjoined_eq_none_iff]
  · rw [h.orders]
    split <;> simp [*]
  · rw [h.limit, h.offset, Option.map_eq_none_iff]
    cases q.limit <;> cases q.offset <;> simp [Dialect.writtenLimit]

open Sentence (Clause Listed Optionally Item Order)

theorem sentence_items {q : Query} {items : List OutputItem} (h : q.outputs = .ok items)
    (hne : q.selected.flatMap SelectItem.entries ≠ []) : Clause (Listed Item) [.SELECT]
      ((.keyword .SELECT :: Token.commaSeparated (items.map OutputItem.tokens)).flatMap
        Token.visible)
      ((q.selected.flatMap SelectItem.entries).map fun i => ⟨i.expr.tokens, i.aliasName⟩) := by
  rw [items_eq_flatMap_entries h]
  exact .mk (Sentence.listed_commaSeparated hne fun i hi =>
    Sentence.item_tokens
      (SelectItem.hasEmptyIn_flatMap_entries (exists_outputs_of_outputs h) i hi))

theorem sentence_groups {q : Query} {groups : Option (List Expr)} (h : q.groupList = .ok groups)
    (hne : q.groups ≠ [] → q.groups.flatMap SelectItem.entries ≠ []) :
    Optionally (Clause (Listed Item) [.GROUP, .BY])
      ((Statement.groupTokens groups).flatMap Token.visible)
      (if q.groups = [] then none else
        some ((q.groups.flatMap SelectItem.entries).map fun i => ⟨i.expr.tokens, none⟩)) := by
  have hwritten := exists_outputs_of_groupList h
  rw [eq_of_groupList h, groupExprs]
  by_cases hgroups : q.groups = []
  · rw [if_pos hgroups, if_pos (List.isEmpty_iff.mpr hgroups)]
    exact .absent
  · rw [if_neg hgroups, if_neg (fun hempty => hgroups (List.isEmpty_iff.mp hempty))]
    rw [Statement.groupTokens, List.map_map]
    exact .present (.mk (Sentence.listed_commaSeparated (hne hgroups) fun i hi =>
      .plain (Sentence.expression_tokens (SelectItem.hasEmptyIn_flatMap_entries hwritten i hi))))

theorem orderTokens_of_ne_nil {os : List OrderClause} (h : os ≠ []) : Statement.orderTokens os =
    .keyword .ORDER :: .keyword .BY :: Token.commaSeparated (os.map OrderClause.tokens) := by
  cases os with
  | nil => exact absurd rfl h
  | cons o os => rfl

theorem sentence_orders {q : Query} {orders : List OrderClause}
    (h : q.orders.mapM OrderItem.clause = .ok orders) :
    Optionally (Clause (Listed Order) [.ORDER, .BY])
      ((Statement.orderTokens orders).flatMap Token.visible)
      (if q.orders = [] then none else
        some (q.orders.map fun o => ⟨o.expr.tokens, o.direction⟩)) := by
  have hchecked : ∀ o ∈ q.orders, o.expr.hasEmptyIn = false := by
    intro o ho
    obtain ⟨clause, hclause⟩ := exists_of_mem_of_mapM h o ho
    obtain ⟨f, hf, -⟩ := bind_eq_ok_iff.mp hclause
    exact (Expr.eq_of_checked hf).1
  rw [← eq_map_of_mapM (fun _ _ => OrderItem.eq_of_clause) h]
  by_cases horders : q.orders = []
  · rw [if_pos horders, horders]
    exact .absent
  · have hne : q.orders.map (fun o => OrderClause.mk o.expr o.direction.keyword) ≠ [] :=
      fun hnil => horders (List.map_eq_nil_iff.mp hnil)
    rw [if_neg horders, orderTokens_of_ne_nil hne, List.map_map]
    exact .present (.mk (Sentence.listed_commaSeparated horders fun o ho =>
      Sentence.order_tokens (hchecked o ho) o.direction))

/-- The tokens of a query's statement are a sentence with the clauses of the query. -/
theorem sentence_tokens {q : Query} {s : Statement} (h : q.statement = .ok s)
    (hitems : q.selected.flatMap SelectItem.entries ≠ [])
    (hgroups : q.groups ≠ [] → q.groups.flatMap SelectItem.entries ≠ [])
    (haliases : ∀ step ∈ Join.walkAll q.source q.joins,
      ∃ aliasName, step.2.right.aliasName = some aliasName) (d : Dialect) :
    ∃ p, q.Holds d p ∧ Sentence ((s.tokens d).flatMap Token.visible) p := by
  obtain ⟨hoi, hos, hoj, hof, hog, hoh, hoo, hol, hok⟩ := statement_eq_ok_iff.mp h
  obtain ⟨runs, hruns, hjoins⟩ :=
    Sentence.joins_tokens (mapM_eq_ok_iff_forall₂.mp hoj) haliases
  obtain ⟨ls, ks, hwindow, hlimit, hoffset⟩ := Sentence.window_tokens d s.limit s.offset
  let p : Clauses := {
    items := (q.selected.flatMap SelectItem.entries).map fun i => ⟨i.expr.tokens, i.aliasName⟩
    source := s.source
    joins := runs
    filter := (conjoined q.filters).map Expr.tokens
    groups := if q.groups = [] then none else
      some ((q.groups.flatMap SelectItem.entries).map fun i => ⟨i.expr.tokens, none⟩)
    groupFilter := (conjoined q.groupFilters).map Expr.tokens
    orders := if q.orders = [] then none else
      some (q.orders.map fun o => ⟨o.expr.tokens, o.direction⟩)
    limit := d.writtenLimit s.limit s.offset
    offset := s.offset.map fun k => (k.toNat : Int) }
  refine ⟨p, ⟨rfl, hos.symm, hruns, rfl, rfl, rfl, rfl, by rw [hol, hok], by rw [hok]⟩, ?_⟩
  have hfrom : Clause Sentence.Source [.FROM]
      ((.keyword .FROM :: s.source.tokens).flatMap Token.visible) p.source :=
    .mk (Sentence.source_tokens s.source)
  simp only [Statement.tokens, List.flatMap_append, List.append_assoc, hwindow]
  exact .select (sentence_items hoi hitems) hfrom hjoins (Sentence.predicate_tokens hof .WHERE)
    (sentence_groups hog hgroups) (Sentence.predicate_tokens hoh .HAVING) (sentence_orders hoo)
    hlimit hoffset

/-- Every join that builder calls attach is walked under an alias. -/
theorem exists_aliasName_build {t : TableRef} {calls : List Call} :
    ∀ step ∈ Join.walkAll ((ofTable t).build calls).source ((ofTable t).build calls).joins,
      ∃ aliasName, step.2.right.aliasName = some aliasName := by
  intro step hstep
  have hjoins : ((ofTable t).build calls).joins =
      (attached calls).map (Join.rebase t.identifier) := joins_build (ofTable t) calls
  have hsecond := List.mem_map_of_mem (f := Prod.snd) hstep
  rw [← Join.snd_addressedAll] at hsecond
  obtain ⟨⟨path, j⟩, haddressed, rfl⟩ := List.mem_map.mp hsecond
  have hreached := Join.mem_addressedAll_iff.mp haddressed
  rw [hjoins] at hreached
  exact ⟨_, congrArg TableRef.aliasName hreached.right_eq⟩

/-- The text of a compiled query is taken apart into clauses in one way, and these are the clauses
of the query. An expression is found as the tokens that it alone is written with, and a clause is
absent if the query has nothing for it, and only then. -/
theorem compile_clauses {t : TableRef} {calls : List Call} {ctx : Context} {mark : Char}
    (hmark : ctx.quoting.mark? = some mark) {c : Compiled}
    (h : ((ofTable t).build calls).compile ctx = .ok c)
    (hitems : ((ofTable t).build calls).selected.flatMap SelectItem.entries ≠ [])
    (hgroups : ((ofTable t).build calls).groups ≠ [] →
      ((ofTable t).build calls).groups.flatMap SelectItem.entries ≠ []) :
    let q := (ofTable t).build calls
    ∃ ts p, c.tokens? mark = some ts ∧ (∀ p', Sentence ts p' ↔ p' = p) ∧ q.Holds ctx.dialect p ∧
      (p.joins = [] ↔ q.joins = []) ∧ (p.filter = none ↔ q.filters = []) ∧
      (p.groups = none ↔ q.groups = []) ∧ (p.groupFilter = none ↔ q.groupFilters = []) ∧
      (p.orders = none ↔ q.orders = []) ∧
      (p.limit = none ∧ p.offset = none ↔ q.limit = none ∧ q.offset = none) := by
  intro q
  obtain ⟨s, hs, rfl⟩ := exists_statement h
  obtain ⟨p, hp, hsentence⟩ :=
    sentence_tokens hs hitems hgroups exists_aliasName_build ctx.dialect
  refine ⟨_, p, Compiled.tokens?_render hmark _, fun p' => ⟨fun hp' => hp'.unique hsentence, ?_⟩,
    hp, hp.absent_iff⟩
  rintro rfl
  exact hsentence

/-- Two predicates, one of them a disjunction, around a join, with a lone offset and a group list
whose first item has no columns. -/
theorem compile_clauses_offset :
    let key (name : String) : Field := ⟨name, .int .int64, name, rfl⟩
    let t := TableRef.ofModel ⟨"User", "users", [key "id"], by simp⟩
    let post : Model := ⟨"Post", "posts", [key "author"], by simp⟩
    let on := Join.on "posts" "users" (.ofModel post) fun left right => do
      return .eq (.column (← right.column "author")) (.column (← left.column "id"))
    let yes : Expr := .literal (.bool true)
    let calls := [Call.filter (.binary yes .or yes), .innerJoin on, .filter yes,
      .groupBy [.columns (.ofModel ⟨"Unit", "units", [], by simp⟩), .columns t], .withOffset 5]
    let q := (ofTable t).build calls
    ∃ c, q.compile (.ofDialect .sqlite) = .ok c ∧ q.selected.flatMap SelectItem.entries ≠ [] ∧
      (q.groups ≠ [] → q.groups.flatMap SelectItem.entries ≠ []) ∧
      ∃ ts p, c.tokens? '"' = some ts ∧ (∀ p', Sentence ts p' ↔ p' = p) ∧
        p.items = [⟨[.name "users", .dot, .name "id"], none⟩,
          ⟨[.name "users_posts", .dot, .name "author"], none⟩] ∧
        p.filter = some [.opening, .bound (.bool true), .keyword .OR, .bound (.bool true),
          .closing, .keyword .AND, .bound (.bool true)] ∧
        p.groups = some [⟨[.name "users", .dot, .name "id"], none⟩] ∧
        (p.orders = none ↔ q.orders = []) ∧ p.limit = some (-1) ∧ p.offset = some 5 := by
  intro key t post on yes calls q
  have hcompile : ∃ c, q.compile (.ofDialect .sqlite) = .ok c := ⟨_, rfl⟩
  obtain ⟨c, hc⟩ := hcompile
  have hitems : q.selected.flatMap SelectItem.entries ≠ [] := List.cons_ne_nil _ _
  have hgroups : q.groups ≠ [] → q.groups.flatMap SelectItem.entries ≠ [] :=
    fun _ => List.cons_ne_nil _ _
  obtain ⟨ts, p, hts, hp, hholds, -, -, -, -, horders, -⟩ :=
    compile_clauses rfl hc hitems hgroups
  exact ⟨c, hc, hitems, hgroups, ts, p, hts, hp, hholds.items, hholds.filter, hholds.groups,
    horders, hholds.limit, hholds.offset⟩

end Query

end SqlCompose
