import Mathlib.Data.List.Basic
import SqlCompose.Query.Basic

/-!
# Queries by calls

A query is built by calls, one after the other, and each call has a part in one clause only. What
a query holds of a clause after many calls is therefore told from the calls on that clause.

## Main definitions

* `Query.Call`, `Query.build`: the calls of builders, and the query after them.
* `Query.attached`: the joins that calls attach.

## Main results

* `Query.build_append`: what each call adds to the end of a list, all of them add in their order.
* `Query.joins_build`, `Query.defaultSelection_build`: a query holds the joins that the calls
  attach, under its identifier, and selects their tables by default.
-/

namespace SqlCompose

namespace Query

/-- A call of a builder. -/
inductive Call where
  | innerJoin (j : Join)
  | select (items : List SelectItem)
  | filter (predicate : Expr)
  | groupBy (items : List SelectItem)
  | having (predicate : Expr)
  | orderBy (entries : List OrderItem)
  | withLimit (n : UInt64)
  | withOffset (n : UInt64)

namespace Call

/-- The query after a call. -/
def apply (q : Query) : Call → Query
  | innerJoin j => q.innerJoin j
  | select items => q.select items
  | filter predicate => q.filter predicate
  | groupBy items => q.groupBy items
  | having predicate => q.having predicate
  | orderBy entries => q.orderBy entries
  | withLimit n => q.withLimit n
  | withOffset n => q.withOffset n

/-- The join that a call attaches, if it is such a call. -/
def join? : Call → Option Join
  | innerJoin j => some j
  | _ => none

@[simp] theorem source_apply (q : Query) (c : Call) : (c.apply q).source = q.source := by
  cases c <;> rfl

theorem joins_apply (q : Query) (c : Call) :
    (c.apply q).joins = q.joins ++ c.join?.toList.map (Join.rebase q.source.identifier) := by
  cases c with
  | innerJoin j => rfl
  | _ => exact (List.append_nil _).symm

theorem defaultSelection_apply (q : Query) (c : Call) :
    (c.apply q).defaultSelection = q.defaultSelection ++
      c.join?.toList.map fun j => .join (j.rebase q.source.identifier) := by
  cases c with
  | innerJoin j => rfl
  | _ => exact (List.append_nil _).symm

end Call

/-- The query after calls, first to last. -/
def build (q : Query) (calls : List Call) : Query := calls.foldl Call.apply q

/-- The joins that calls attach, first to last. -/
def attached (calls : List Call) : List Join := calls.filterMap Call.join?

@[simp] theorem source_build (q : Query) (calls : List Call) :
    (q.build calls).source = q.source := by
  induction calls generalizing q with
  | nil => rfl
  | cons c calls ih => exact (ih (c.apply q)).trans (c.source_apply q)

/-- What each call adds to the end of a list of the query, all calls add in their order. What is
added may depend on the query's table, which no call changes. -/
theorem build_append {α : Type} {f : Query → List α} {g : TableRef → Call → List α}
    (h : ∀ q c, f (c.apply q) = f q ++ g q.source c) (q : Query) (calls : List Call) :
    f (q.build calls) = f q ++ calls.flatMap (g q.source) := by
  induction calls generalizing q with
  | nil => exact (List.append_nil _).symm
  | cons c calls ih =>
    have hstep : f (q.build (c :: calls)) = f ((c.apply q).build calls) := rfl
    rw [hstep, ih, h, c.source_apply, List.flatMap_cons, List.append_assoc]

/-- What is made of each join that is attached, call by call. -/
theorem flatMap_join? {α : Type} (g : Join → α) (calls : List Call) :
    (calls.flatMap fun c => c.join?.toList.map g) = (attached calls).map g := by
  rw [attached, List.filterMap_eq_flatMap_toList, List.map_flatMap]

/-- A query holds the joins that the calls attach in the order of the calls, each under the
identifier of the query's table. -/
theorem joins_build (q : Query) (calls : List Call) :
    (q.build calls).joins =
      q.joins ++ (attached calls).map (Join.rebase q.source.identifier) := by
  rw [build_append (f := joins) (g := fun t c => c.join?.toList.map (Join.rebase t.identifier))
    Call.joins_apply, flatMap_join?]

/-- By default a query selects the joins that it holds, in the order of the calls and behind what
it selected before. -/
theorem defaultSelection_build (q : Query) (calls : List Call) :
    (q.build calls).defaultSelection = q.defaultSelection ++
      (attached calls).map fun j => .join (j.rebase q.source.identifier) := by
  rw [build_append (f := defaultSelection)
    (g := fun t c => c.join?.toList.map fun j => .join (j.rebase t.identifier))
    Call.defaultSelection_apply, flatMap_join?]

/-- The default select list of a query on a table is the table's columns and the query's joins. -/
theorem defaultSelection_build_ofTable (t : TableRef) (calls : List Call) :
    ((ofTable t).build calls).defaultSelection =
      .columns t :: ((ofTable t).build calls).joins.map .join := by
  rw [defaultSelection_build, joins_build, List.map_append, List.map_map]
  rfl

end Query

end SqlCompose
