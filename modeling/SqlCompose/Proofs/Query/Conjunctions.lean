import SqlCompose.Proofs.Query.Interleaving
import SqlCompose.Proofs.Query.Outcome

/-!
# Conditions conjoined in parts

A conjunction is written condition by condition with `AND` before each but the first, and whether a
condition is grouped does not depend on the side of `AND` that it stands on. The conjunction of
conjunctions is therefore written like the one of all their conditions, though the two trees lean to
different sides. A single condition is written as it is. For the predicates of a query this means
that only their order counts, and not which of them come in one call.

## Main definitions

* `Expr.conjunct`: a condition as it is written behind others.
* `Regrouped`: two lists of conditions that are conjunctions of parts of one list.

## Main results

* `Expr.conjunct_all`: the conditions of a conjunction are written one after the other.
* `Expr.tokens_all_flatten`: a conjunction of conjunctions is written as the one of all conditions.
* `Query.compile_regrouped`: predicates may be conjoined in any parts before a query is given them.
-/

namespace SqlCompose

namespace Expr

/-! ### Conditions one after the other -/

/-- The tokens of a condition behind other conditions. -/
def conjunct (e : Expr) : List Token :=
  .keyword .AND :: Token.grouped (e.groupedUnder .and .left) e.tokens

/-- On both sides of `AND` the same operands are grouped. -/
theorem groupedUnder_and_right (e : Expr) :
    e.groupedUnder .and .right = e.groupedUnder .and .left := by
  cases e with
  | binary left op right => cases op <;> rfl
  | _ => rfl

theorem conjunct_binary_and (left right : Expr) :
    (binary left .and right).conjunct = .keyword .AND :: (binary left .and right).tokens := rfl

theorem conjunct_and (left right : Expr) :
    (binary left .and right).conjunct = left.conjunct ++ right.conjunct := by
  rw [conjunct_binary_and, tokens, groupedUnder_and_right, List.append_assoc]
  rfl

/-- The conditions of a conjunction are written one after the other. -/
theorem conjunct_all {es : List Expr} (h : es ≠ []) : (all es).conjunct = es.flatMap conjunct := by
  cases es with
  | nil => exact absurd rfl h
  | cons e es =>
    have hone : conjoined (e :: es) = some (all (e :: es)) := rfl
    rw [← flatMap_conjoined conjunct_and, hone, Option.toList_some, List.flatMap_singleton]

theorem flatten_ne_nil {ls : List (List Expr)} (hls : ls ≠ []) (h : ∀ l ∈ ls, l ≠ []) :
    ls.flatten ≠ [] := by
  obtain ⟨l, hl⟩ := List.exists_mem_of_ne_nil ls hls
  exact fun hnil => h l hl (List.flatten_eq_nil_iff.mp hnil l hl)

theorem conjunct_all_flatten {ls : List (List Expr)} (hls : ls ≠ []) (h : ∀ l ∈ ls, l ≠ []) :
    (all (ls.map all)).conjunct = (all ls.flatten).conjunct := by
  have hmap : ls.map all ≠ [] := fun hnil => hls (List.map_eq_nil_iff.mp hnil)
  rw [conjunct_all hmap, conjunct_all (flatten_ne_nil hls h), List.flatMap_map, ← List.flatMap_id',
    List.flatMap_assoc]
  exact List.flatMap_congr fun l hl => conjunct_all (h l hl)

/-- Of two conditions or more a conjunction is made. -/
theorem exists_all_eq_and (e f : Expr) (es : List Expr) :
    ∃ left right, all (e :: f :: es) = binary left .and right := by
  have hfold (left right : Expr) (es : List Expr) : ∃ left' right',
      es.foldl (fun left right => binary left .and right) (binary left .and right) =
        binary left' .and right' := by
    induction es generalizing left right with
    | nil => exact ⟨left, right, rfl⟩
    | cons g es ih => exact ih (binary left .and right) g
  exact hfold e f es

/-- Conjunctions that are written alike behind other conditions are written alike by themselves. -/
theorem tokens_eq_of_conjunct_eq {e f e' f' : Expr} {es es' : List Expr}
    (h : (all (e :: f :: es)).conjunct = (all (e' :: f' :: es')).conjunct) :
    (all (e :: f :: es)).tokens = (all (e' :: f' :: es')).tokens := by
  obtain ⟨left, right, hall⟩ := exists_all_eq_and e f es
  obtain ⟨left', right', hall'⟩ := exists_all_eq_and e' f' es'
  rw [hall, hall', conjunct_binary_and, conjunct_binary_and] at h
  rw [hall, hall']
  exact List.tail_eq_of_cons_eq h

/-- A conjunction of conjunctions is written like the one of all their conditions. -/
theorem tokens_all_flatten {ls : List (List Expr)} (h : ∀ l ∈ ls, l ≠ []) :
    (all (ls.map all)).tokens = (all ls.flatten).tokens := by
  match ls with
  | [] => rfl
  | [l] => rw [List.flatten_singleton]; rfl
  | l :: m :: ls =>
    -- there are two conditions at least, so that neither side is a single one without `AND`
    have hconjunct := conjunct_all_flatten (List.cons_ne_nil l (m :: ls)) h
    obtain ⟨e, es, rfl⟩ := List.exists_cons_of_ne_nil (h l List.mem_cons_self)
    obtain ⟨f, fs, hf⟩ : ∃ f fs, es ++ (m :: ls).flatten = f :: fs :=
      List.exists_cons_of_ne_nil fun hnil =>
        flatten_ne_nil (List.cons_ne_nil m ls) (fun k hk => h k (List.mem_cons_of_mem _ hk))
          (List.append_eq_nil_iff.mp hnil).2
    rw [List.flatten_cons, List.cons_append, hf] at hconjunct ⊢
    exact tokens_eq_of_conjunct_eq hconjunct

theorem hasEmptyIn_all_flatten (ls : List (List Expr)) :
    (all (ls.map all)).hasEmptyIn = (all ls.flatten).hasEmptyIn := by
  rw [hasEmptyIn_all, hasEmptyIn_all, List.any_map, List.any_flatten]
  exact congrArg ls.any (funext hasEmptyIn_all)

/-- Only the tokens of an expression and its membership tests are seen in its text. -/
theorem compile_eq_of_tokens_eq {e f : Expr} (htokens : e.tokens = f.tokens)
    (hin : e.hasEmptyIn = f.hasEmptyIn) (ctx : Context) : e.compile ctx = f.compile ctx := by
  rw [compile, compile, checked, checked, hin]
  split
  · rfl
  · exact congrArg (Except.ok ∘ Token.render ctx) htokens

end Expr

/-! ### Predicates in parts -/

theorem conjunction_cons (e : Expr) (es : List Expr) :
    conjunction (e :: es) = some <$> (Expr.all (e :: es)).checked := rfl

/-- Both lists are made of conjunctions of parts of one list of conditions: parts that follow one
another, of which none is empty. -/
inductive Regrouped : List Expr → List Expr → Prop
  | parts (ls ms : List (List Expr)) (hl : ∀ l ∈ ls, l ≠ []) (hm : ∀ m ∈ ms, m ≠ [])
      (h : ls.flatten = ms.flatten) : Regrouped (ls.map Expr.all) (ms.map Expr.all)

namespace Regrouped

theorem refl (es : List Expr) : Regrouped es es := by
  have hall : (es.map fun e => [e]).map Expr.all = es := by
    rw [List.map_map]
    exact List.map_id es
  have hne : ∀ l ∈ es.map fun e => [e], l ≠ [] := by simp
  have hes := parts _ _ hne hne rfl
  rwa [hall] at hes

theorem append {es fs es' fs' : List Expr} (h : Regrouped es fs) (h' : Regrouped es' fs') :
    Regrouped (es ++ es') (fs ++ fs') := by
  obtain ⟨ls, ms, hl, hm, hflat⟩ := h
  obtain ⟨ls', ms', hl', hm', hflat'⟩ := h'
  rw [← List.map_append, ← List.map_append]
  refine parts _ _ (List.forall_mem_append.mpr ⟨hl, hl'⟩) (List.forall_mem_append.mpr ⟨hm, hm'⟩) ?_
  rw [List.flatten_append, List.flatten_append, hflat, hflat']

theorem eq_nil_iff {es fs : List Expr} (h : Regrouped es fs) : es = [] ↔ fs = [] := by
  obtain ⟨ls, ms, hl, hm, hflat⟩ := h
  have hnil {ls : List (List Expr)} (hl : ∀ l ∈ ls, l ≠ []) : ls = [] ↔ ls.flatten = [] :=
    ⟨fun h => h ▸ rfl, fun h => by_contra fun hls => Expr.flatten_ne_nil hls hl h⟩
  rw [List.map_eq_nil_iff, List.map_eq_nil_iff, hnil hl, hnil hm, hflat]

theorem tokens_eq {es fs : List Expr} (h : Regrouped es fs) :
    (Expr.all es).tokens = (Expr.all fs).tokens := by
  obtain ⟨ls, ms, hl, hm, hflat⟩ := h
  rw [Expr.tokens_all_flatten hl, Expr.tokens_all_flatten hm, hflat]

theorem hasEmptyIn_eq {es fs : List Expr} (h : Regrouped es fs) :
    (Expr.all es).hasEmptyIn = (Expr.all fs).hasEmptyIn := by
  obtain ⟨ls, ms, -, -, hflat⟩ := h
  rw [Expr.hasEmptyIn_all_flatten, Expr.hasEmptyIn_all_flatten, hflat]

/-- Both conjunctions fail, or both can be written and are written alike. -/
theorem conjunction_eq {es fs : List Expr} (h : Regrouped es fs) :
    (conjunction es).map (Option.map Expr.tokens) =
      (conjunction fs).map (Option.map Expr.tokens) := by
  cases es with
  | nil => rw [h.eq_nil_iff.mp rfl]
  | cons e es =>
    cases fs with
    | nil => cases h.eq_nil_iff.mpr rfl
    | cons f fs =>
      rw [conjunction_cons, conjunction_cons, Expr.checked, Expr.checked, h.hasEmptyIn_eq]
      split
      · rfl
      · exact congrArg (Except.ok ∘ some) h.tokens_eq

end Regrouped

theorem predicateTokens_eq {p p' : Option Expr} (h : p.map Expr.tokens = p'.map Expr.tokens)
    (k : Keyword) : predicateTokens k p = predicateTokens k p' := by
  have hmap (p : Option Expr) :
      predicateTokens k p = ((p.map Expr.tokens).map (.keyword k :: ·)).getD [] := by
    cases p <;> rfl
  rw [hmap p, hmap p', h]

/-- Steps that come to the same are followed by the same, if what follows sees no more of them. -/
theorem bind_eq_of_map_eq {ε α β γ δ : Type} {x : Except ε α} {y : Except ε β} {f : α → γ}
    {g : β → γ} (h : x.map f = y.map g) {F : α → Except ε δ} {G : β → Except ε δ}
    (hFG : ∀ a b, f a = g b → F a = G b) : x >>= F = y >>= G := by
  obtain ⟨e, rfl, rfl⟩ | ⟨a, b, rfl, rfl, hab⟩ := error_or_ok_of_map_eq h
  · rfl
  · exact hFG a b hab

theorem map_bind_eq {ε α β γ : Type} (x : Except ε α) (F : α → Except ε β) (h : β → γ) :
    (x >>= F).map h = x >>= fun a => (F a).map h := by
  cases x <;> rfl

namespace Query

/-- A query with other predicates that are written like its own is written like the query. -/
theorem compile_of_regrouped (q : Query) {filters groupFilters : List Expr}
    (hf : Regrouped filters q.filters) (hg : Regrouped groupFilters q.groupFilters)
    (ctx : Context) :
    Query.compile ctx { q with filters, groupFilters } = q.compile ctx := by
  simp only [compile, statement, map_bind_eq]
  refine bind_congr fun items => bind_congr fun joins => ?_
  refine bind_eq_of_map_eq hf.conjunction_eq fun filter filter' hfilter => ?_
  refine bind_congr fun groups => ?_
  refine bind_eq_of_map_eq hg.conjunction_eq fun having having' hhaving => ?_
  refine bind_congr fun orders => ?_
  refine congrArg (Except.ok ∘ Token.render ctx) ?_
  simp only [Statement.tokens, predicateTokens_eq hfilter, predicateTokens_eq hhaving]

/-- Calls that are given the same but for predicates build queries that differ in those only. -/
theorem build_eq_of_given_eq (q : Query) {calls calls' : List Call}
    (h : ∀ k, k ≠ .filter → k ≠ .having → given k calls = given k calls') :
    q.build calls =
      { q.build calls' with
        filters := (q.build calls).filters
        groupFilters := (q.build calls).groupFilters } := by
  have hq := q.after_build calls
  have hq' := q.after_build calls'
  have hjoins := h .innerJoin nofun nofun
  exact Query.ext (by rw [hq.source, hq'.source])
    (by rw [hq.selection, hq'.selection, h .select nofun nofun])
    (by rw [hq.defaultSelection, hq'.defaultSelection, hjoins])
    (by rw [hq.joins, hq'.joins, hjoins]) rfl
    (by rw [hq.groups, hq'.groups, h .groupBy nofun nofun]) rfl
    (by rw [hq.orders, hq'.orders, h .orderBy nofun nofun])
    (by rw [hq.limit, hq'.limit, h .withLimit nofun nofun])
    (by rw [hq.offset, hq'.offset, h .withOffset nofun nofun])

/-- The conditions of a conjunction may be conjoined in parts: the conjunction of the parts has the
text and the bindings of the whole, or fails as the whole does. Predicates on rows and on groups may
therefore be given to a query one by one, all conjoined, or conjoined in any parts that follow one
another, between any other calls: in every context, two runs of calls that give the same conditions
in the same order, and are alike in all other clauses, compile to the same. -/
theorem compile_regrouped (ls : List (List Expr)) (h : ∀ l ∈ ls, l ≠ []) :
    (∀ ctx, (Expr.all (ls.map Expr.all)).compile ctx = (Expr.all ls.flatten).compile ctx) ∧
    ∀ (q : Query) (calls calls' : List Call),
      (∀ k, k ≠ .filter → k ≠ .having → given k calls = given k calls') →
      Regrouped (given .filter calls) (given .filter calls') →
      Regrouped (given .having calls) (given .having calls') →
      ∀ ctx, (q.build calls).compile ctx = (q.build calls').compile ctx := by
  refine ⟨?_, fun q calls calls' hgiven hf hg ctx => ?_⟩
  · exact Expr.compile_eq_of_tokens_eq (Expr.tokens_all_flatten h) (Expr.hasEmptyIn_all_flatten ls)
  · have hfilters : Regrouped (q.build calls).filters (q.build calls').filters := by
      rw [(q.after_build calls).filters, (q.after_build calls').filters]
      exact (Regrouped.refl q.filters).append hf
    have hhavings : Regrouped (q.build calls).groupFilters (q.build calls').groupFilters := by
      rw [(q.after_build calls).groupFilters, (q.after_build calls').groupFilters]
      exact (Regrouped.refl q.groupFilters).append hg
    rw [build_eq_of_given_eq q hgiven]
    exact compile_of_regrouped (q.build calls') hfilters hhavings ctx

/-- A bare disjunction, a comparison, a negation and a nested conjunction: in parts of two, one and
two conditions, and as predicates that are given one by one in the one run of calls, and in parts
and between other calls in the other. -/
theorem compile_regrouped_raw :
    let id : Expr := .column ⟨"users", "id", "id"⟩
    let one : Expr := .eq id (.literal (.integer 1))
    let either : Expr := .binary one .or (.isNull id)
    let both : Expr := .binary one .and (.not either)
    let ls := [[either, one], [.not one], [both, either]]
    let q := ofTable (.ofModel ⟨"User", "users", [⟨"id", .int .int64, "id", rfl⟩], by simp⟩)
    let calls := [Call.filter either, .filter one, .withLimit 2, .filter (.not one), .filter both,
      .having one, .having either, .filter either]
    let calls' := [Call.having (.all [one, either]), .filter (.all [either, one, .not one]),
      .filter (.all [both, either]), .withLimit 2]
    (∀ l ∈ ls, l ≠ []) ∧
      (∀ ctx, (Expr.all (ls.map Expr.all)).compile ctx = (Expr.all ls.flatten).compile ctx) ∧
      (∀ k, k ≠ .filter → k ≠ .having → given k calls = given k calls') ∧
      Regrouped (given .filter calls) (given .filter calls') ∧
      Regrouped (given .having calls) (given .having calls') ∧
      ∀ ctx, (q.build calls).compile ctx = (q.build calls').compile ctx := by
  intro id one either both ls q calls calls'
  have hls : ∀ l ∈ ls, l ≠ [] := by simp [ls]
  have hgiven (k : Call.Kind) (hfilter : k ≠ .filter) (hhaving : k ≠ .having) :
      given k calls = given k calls' := by
    cases k <;> first | rfl | exact absurd rfl hfilter | exact absurd rfl hhaving
  have hf : Regrouped (given .filter calls) (given .filter calls') :=
    .parts [[either], [one], [.not one], [both], [either]]
      [[either, one, .not one], [both, either]] (by simp) (by simp) rfl
  have hg : Regrouped (given .having calls) (given .having calls') :=
    .parts [[one], [either]] [[one, either]] (by simp) (by simp) rfl
  obtain ⟨hconjoined, hbuilt⟩ := compile_regrouped ls hls
  exact ⟨hls, hconjoined, hgiven, hf, hg, hbuilt q calls calls' hgiven hf hg⟩

end Query

end SqlCompose
