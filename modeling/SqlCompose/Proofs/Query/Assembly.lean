import Mathlib.Data.List.Forall2
import SqlCompose.Proofs.Query.Calls
import SqlCompose.Query.Statement
import SqlCompose.Schema.Table

/-!
# Trees of joins and their names

A tree of joins may be put together in any order, and the joins that are put together may have been
named below other tables before. Attached to a query, its joins are named by their paths from the
query's table all the same: naming looks at the relations' names only, never at the names that the
tables had.

A plan is a tree of joins without the names of its tables. It is what is meant to be joined, and
all that a query takes from a tree.

## Main definitions

* `Join.Plan`, `Join.plan`: plans, and the plan of a tree.
* `Join.Plan.Assembled`: the ways to put a plan together.
* `Join.Reached`: the joins of trees, with the relations' names on the way.
* `Query.Call.SamePlan`: calls that attach the same plan, or that are the same.

## Main results

* `Join.rebase_eq_named`: a tree is named from its plan.
* `Query.build_named`: the joins of a query are those that were planned, and are named by path.
-/

namespace SqlCompose

namespace Join

/-! ### Plans -/

/-- A join of a model and the joins that start there, whatever the tables are called. -/
structure Plan where
  name : String
  left : String
  model : Model
  condition : TableRef → TableRef → Except Error Expr
  children : List Plan

mutual

/-- The plan of a tree. -/
def plan : Join → Plan
  | ⟨name, left, right, condition, children⟩ =>
    ⟨name, left, right.model, condition, planAll children⟩

/-- The plans of the trees. -/
def planAll : List Join → List Plan
  | [] => []
  | j :: js => j.plan :: planAll js

end

theorem planAll_eq_map (js : List Join) : planAll js = js.map plan := by
  induction js with
  | nil => rfl
  | cons j js ih => rw [planAll, List.map_cons, ih]

theorem children_plan (j : Join) : j.plan.children = j.children.map plan := by
  cases j
  exact planAll_eq_map _

mutual

theorem plan_rebase (parent : String) : (j : Join) → (j.rebase parent).plan = j.plan
  | ⟨name, _, _, _, children⟩ => by
    rw [rebase, plan, plan, planAll_rebaseAll (pathName parent name) children]
    rfl

theorem planAll_rebaseAll (parent : String) : (js : List Join) →
    planAll (rebaseAll parent js) = planAll js
  | [] => rfl
  | j :: js => by
    rw [rebaseAll, planAll, planAll, plan_rebase parent j, planAll_rebaseAll parent js]

end

namespace Plan

mutual

/-- The tree of a plan below an identifier. -/
def named (parent : String) : Plan → Join
  | ⟨name, left, model, condition, children⟩ =>
    ⟨name, left, .of model (some (pathName parent name)), condition,
      namedAll (pathName parent name) children⟩

/-- The trees of plans below one identifier. -/
def namedAll (parent : String) : List Plan → List Join
  | [] => []
  | p :: ps => p.named parent :: namedAll parent ps

end

/-- One more plan at the end of those that start at the plan's model. -/
def attach (p k : Plan) : Plan := { p with children := p.children ++ [k] }

end Plan

mutual

/-- A tree is named from its plan, so that names it had before leave no trace. -/
theorem rebase_eq_named (parent : String) : (j : Join) → j.rebase parent = j.plan.named parent
  | ⟨name, _, _, _, children⟩ => by
    rw [rebase, plan, Plan.named, rebaseAll_eq_namedAll (pathName parent name) children,
      TableRef.aliased_eq_of]

theorem rebaseAll_eq_namedAll (parent : String) : (js : List Join) →
    rebaseAll parent js = Plan.namedAll parent (planAll js)
  | [] => rfl
  | j :: js => by
    rw [rebaseAll, planAll, Plan.namedAll, rebase_eq_named parent j,
      rebaseAll_eq_namedAll parent js]

end

theorem plan_innerJoin (j k : Join) : (j.innerJoin k).plan = j.plan.attach k.plan := by
  obtain ⟨name, left, right, condition, children⟩ := j
  simp only [innerJoin, plan, Plan.attach, planAll_eq_map, List.map_append, List.map_cons,
    List.map_nil, plan_rebase]

/-! ### Assembly -/

/-- The joins that a plan is put together as: a join with nothing below it, from a relation or with
the table under any alias, one join attached below another, a join taken out of a tree, and one as
a query holds it. -/
inductive Plan.Assembled : Plan → Join → Prop
  | on (name left : String) (right : TableRef)
      (condition : TableRef → TableRef → Except Error Expr) :
      Assembled ⟨name, left, right.model, condition, []⟩ (.on name left right condition)
  | rel {t : Table} {name : String} {r : Relation} {j : Join} (hr : t.relation name = .ok r)
      (hj : t.rel name = .ok j) :
      Assembled ⟨r.name, r.source.table, r.target, r.join.condition, []⟩ j
  | innerJoin {p k : Plan} {j i : Join} (hj : Assembled p j) (hi : Assembled k i) :
      Assembled (p.attach k) (j.innerJoin i)
  | child {p k : Plan} {j i : Join} {n : Nat} (hj : Assembled p j)
      (hk : p.children[n]? = some k) (hi : j.children[n]? = some i) : Assembled k i
  | held {p : Plan} {j : Join} (q : Query) (hj : Assembled p j) :
      Assembled p (j.rebase q.source.identifier)

/-- Whatever the way it is put together, a tree is what was planned. -/
theorem Plan.Assembled.plan_eq {p : Plan} {j : Join} (h : p.Assembled j) : j.plan = p := by
  induction h with
  | on name left right condition => rfl
  | @rel t name r j hr hj =>
    rw [Table.rel, hr] at hj
    cases hj
    exact plan_rebase t.name r.join
  | innerJoin _ _ ihj ihi => rw [plan_innerJoin, ihj, ihi]
  | child _ hk hi ih =>
    rw [← ih, children_plan, List.getElem?_map, hi] at hk
    exact Option.some.inj hk
  | held q _ ih => exact (plan_rebase _ _).trans ih

/-! ### Paths -/

/-- The joins of trees, each with the relations' names from the top down to its own. -/
inductive Reached : List Join → List String → Join → Prop
  | top {js : List Join} {j : Join} (hj : j ∈ js) : Reached js [j.name] j
  | under {js : List Join} {path : List String} {j k : Join} (hj : j ∈ js)
      (hk : Reached j.children path k) : Reached js (j.name :: path) k

theorem children_rebase (parent : String) (j : Join) :
    (j.rebase parent).children = j.children.map (rebase (pathName parent j.name)) := by
  cases j
  exact rebaseAll_eq_map _ _

/-- The path to a join, from the identifier of the table at the top. -/
def pathFrom (root : String) (path : List String) : String := "_".intercalate (root :: path)

theorem pathFrom_cons (root name : String) (path : List String) :
    pathFrom root (name :: path) = pathFrom (pathName root name) path := rfl

/-- The table of a join that was named below an identifier is known by the path to it. -/
theorem Reached.right_eq {js : List Join} {root : String} {path : List String} {k : Join}
    (h : Reached (js.map (rebase root)) path k) :
    k.right = .of k.right.model (some (pathFrom root path)) := by
  generalize hjs : js.map (rebase root) = trees at h
  induction h generalizing js root with
  | top hj =>
    subst hjs
    obtain ⟨j, -, rfl⟩ := List.mem_map.mp hj
    rw [right_rebase, name_rebase, TableRef.aliased_eq_of]
    rfl
  | under hj _ ih =>
    subst hjs
    obtain ⟨j, -, rfl⟩ := List.mem_map.mp hj
    rw [name_rebase, pathFrom_cons]
    exact ih (children_rebase root j).symm

end Join

namespace Query

/-- The same call, or one that attaches a join put together for the same plan. -/
inductive Call.SamePlan : Call → Call → Prop
  | same (c : Call) : SamePlan c c
  | innerJoin {p : Join.Plan} {j j' : Join} (hj : p.Assembled j) (hj' : p.Assembled j') :
      SamePlan (.innerJoin j) (.innerJoin j')

theorem Call.SamePlan.apply_eq {c c' : Call} (h : c.SamePlan c') (q : Query) :
    c.apply q = c'.apply q := by
  cases h with
  | same => rfl
  | innerJoin hj hj' =>
    simp only [apply, Query.innerJoin, Join.rebase_eq_named, hj.plan_eq, hj'.plan_eq]

/-- Calls that attach the same plans build the same query. -/
theorem build_eq_of_samePlan {calls calls' : List Call}
    (h : List.Forall₂ Call.SamePlan calls calls') (q : Query) :
    q.build calls = q.build calls' := by
  induction h generalizing q with
  | nil => rfl
  | @cons c c' calls calls' hc _ ih =>
    have hstep : (c.apply q).build calls = (c'.apply q).build calls' := by rw [hc.apply_eq, ih]
    exact hstep

/-- The joins of a query are the ones that were planned, in the order of the calls. Each is known
by the path to it and has its columns under that name, the default select list has them as the
query does, and calls with the same plans put together otherwise compile to the same. -/
theorem build_named {t : TableRef} {calls : List Call} {plans : List Join.Plan}
    (h : List.Forall₂ Join.Plan.Assembled plans (attached calls)) :
    let q := (ofTable t).build calls
    q.joins.map Join.plan = plans ∧
    (∀ path j, Join.Reached q.joins path j →
      j.right = .of j.right.model (some (Join.pathFrom t.identifier path)) ∧
      j.right.columns = j.right.model.fields.map fun f =>
        ⟨Join.pathFrom t.identifier path, f.column, f.name⟩) ∧
    q.defaultSelection = .columns t :: q.joins.map .join ∧
    ∀ calls', List.Forall₂ Call.SamePlan calls calls' →
      ∀ ctx, ((ofTable t).build calls').compile ctx = q.compile ctx := by
  intro q
  have hjoins : q.joins = (attached calls).map (Join.rebase t.identifier) :=
    joins_build (ofTable t) calls
  refine ⟨?_, fun path j hj => ?_, ?_, fun calls' hcalls ctx => ?_⟩
  · rw [hjoins, List.map_map, ← List.forall₂_eq_eq_eq, List.forall₂_map_left_iff]
    exact h.flip.imp fun j p hj => (Join.plan_rebase _ j).trans hj.plan_eq
  · rw [hjoins] at hj
    have hright := hj.right_eq
    refine ⟨hright, ?_⟩
    rw [hright]
    rfl
  · exact defaultSelection_build_ofTable t calls
  · have hq : q = (ofTable t).build calls' := build_eq_of_samePlan hcalls (ofTable t)
    rw [hq]

/-- Comments joined to posts before the posts are joined to users: with the posts under another
alias at first, and from the relations, which name the comments below the posts' own table. -/
theorem build_named_stale :
    let key (name : String) : Field := ⟨name, .int .int64, name ++ "_key", rfl⟩
    let user : Model := ⟨"User", "users", [key "id"], by simp⟩
    let post : Model := ⟨"Post", "posts", [key "id", key "author"], by decide⟩
    let comment : Model := ⟨"Comment", "comments", [key "post"], by simp⟩
    let authored : Relation := ⟨"posts", user, post, "author", "id", rfl, rfl⟩
    let commented : Relation := ⟨"comments", post, comment, "post", "id", rfl, rfl⟩
    let users : Table := ⟨user, [authored], by simp [authored]⟩
    let posts : Table := ⟨post, [commented], by simp [commented]⟩
    let t := (TableRef.ofModel user).aliased "u"
    let stale := Join.on "posts" "users" (.of post (some "stale")) authored.join.condition
    let comments := Join.on "comments" "posts" (.ofModel comment) commented.join.condition
    let plan : Join.Plan := ⟨"posts", "users", post, authored.join.condition,
      [⟨"comments", "posts", comment, commented.join.condition, []⟩]⟩
    let calls := [Call.withLimit 5, .innerJoin (stale.innerJoin comments)]
    let q := (ofTable t).build calls
    List.Forall₂ Join.Plan.Assembled [plan] (attached calls) ∧ q.joins.map Join.plan = [plan] ∧
      ∃ k, Join.Reached q.joins ["posts", "comments"] k ∧
        k.right = .of comment (some "u_posts_comments") ∧
        k.right.columns = [⟨"u_posts_comments", "post_key", "post"⟩] ∧
        q.defaultSelection = .columns t :: q.joins.map .join ∧
        ∃ j i, users.rel "posts" = .ok j ∧ posts.rel "comments" = .ok i ∧
          ∀ ctx, ((ofTable t).build [.withLimit 5, .innerJoin (j.innerJoin i)]).compile ctx =
            q.compile ctx := by
  intro key user post comment authored commented users posts t stale comments plan calls q
  have hplan : plan.Assembled (stale.innerJoin comments) :=
    .innerJoin (.on "posts" "users" (.of post (some "stale")) authored.join.condition)
      (.on "comments" "posts" (.ofModel comment) commented.join.condition)
  have hauthored : users.relation "posts" = .ok authored := rfl
  have hcommented : posts.relation "comments" = .ok commented := rfl
  have hposts : users.rel "posts" = .ok (authored.join.rebase "users") := rfl
  have hcomments : posts.rel "comments" = .ok (commented.join.rebase "posts") := rfl
  have hrel : plan.Assembled
      ((authored.join.rebase "users").innerJoin (commented.join.rebase "posts")) :=
    .innerJoin (.rel hauthored hposts) (.rel hcommented hcomments)
  have hplans : List.Forall₂ Join.Plan.Assembled [plan] (attached calls) := .cons hplan .nil
  obtain ⟨hjoins, hpaths, hdefault, hsame⟩ := build_named (t := t) hplans
  have hk : ∃ k, Join.Reached q.joins ["posts", "comments"] k ∧ k.right.model = comment :=
    ⟨_, .under (List.mem_singleton.mpr rfl) (.top (List.mem_singleton.mpr rfl)), rfl⟩
  obtain ⟨k, hk, hmodel⟩ := hk
  obtain ⟨hright, hcolumns⟩ := hpaths _ k hk
  rw [hmodel] at hright hcolumns
  exact ⟨hplans, hjoins, k, hk, hright, hcolumns, hdefault, _, _, hposts, hcomments,
    hsame _ (.cons (.same _) (.cons (.innerJoin hplan hrel) .nil))⟩

end Query

end SqlCompose
