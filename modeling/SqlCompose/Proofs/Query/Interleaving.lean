import Mathlib.Data.List.Basic
import SqlCompose.Proofs.Query.Calls
import SqlCompose.Query.Statement
import SqlCompose.Row.Layout

/-!
# Calls in another order

Calls on different clauses do not see each other. What a query holds of a clause after many calls
is told from the calls of one kind: predicates, joins, groups and orders are those that it had and
those of the calls, in the order of the calls, and a selection, a limit and an offset are the last
ones given. Two runs of calls with the same calls of each kind, in the same order among themselves,
therefore build queries that no context and no rows tell apart.

## Main definitions

* `Query.Call.Kind`, `Query.Call.kind`: the kinds of calls.
* `Query.given`: what calls of a kind are given, first to last.
* `Query.After`: what a query holds after calls, clause by clause.

## Main results

* `Query.build_replace`: what each call may put in the place of a value, the last such call decides.
* `Query.after_build`: the query after calls.
* `Query.build_interleaved`: only the order among calls of one kind counts, and calls that add to a
  list may be split.
-/

namespace SqlCompose

namespace Query

namespace Call

/-- The kinds of calls. -/
inductive Kind where
  | innerJoin
  | select
  | filter
  | groupBy
  | having
  | orderBy
  | withLimit
  | withOffset
  deriving DecidableEq, Repr

/-- The kind of a call. -/
def kind : Call → Kind
  | innerJoin _ => .innerJoin
  | select _ => .select
  | filter _ => .filter
  | groupBy _ => .groupBy
  | having _ => .having
  | orderBy _ => .orderBy
  | withLimit _ => .withLimit
  | withOffset _ => .withOffset

/-- What calls of a kind are given. -/
@[reducible] def Kind.Argument : Kind → Type
  | innerJoin => Join
  | select | groupBy => List SelectItem
  | filter | having => Expr
  | orderBy => List OrderItem
  | withLimit | withOffset => UInt64

/-- What a call is given, if it is of the kind. -/
def argument? : (k : Kind) → Call → Option k.Argument
  | .innerJoin, innerJoin j => some j
  | .select, select items => some items
  | .filter, filter predicate => some predicate
  | .groupBy, groupBy items => some items
  | .having, having predicate => some predicate
  | .orderBy, orderBy entries => some entries
  | .withLimit, withLimit n => some n
  | .withOffset, withOffset n => some n
  | _, _ => none

theorem argument?_of_kind_ne {k : Kind} {c : Call} (h : c.kind ≠ k) : c.argument? k = none := by
  cases k <;> cases c <;> first | rfl | exact absurd rfl h

/-! ### One call -/

theorem selection_apply (q : Query) (c : Call) :
    (c.apply q).selection = (c.argument? .select).or q.selection := by
  cases c <;> rfl

theorem limit_apply (q : Query) (c : Call) :
    (c.apply q).limit = (c.argument? .withLimit).or q.limit := by
  cases c <;> rfl

theorem offset_apply (q : Query) (c : Call) :
    (c.apply q).offset = (c.argument? .withOffset).or q.offset := by
  cases c <;> rfl

theorem filters_apply (q : Query) (c : Call) :
    (c.apply q).filters = q.filters ++ (c.argument? .filter).toList := by
  cases c with
  | filter predicate => rfl
  | _ => exact (List.append_nil _).symm

theorem groupFilters_apply (q : Query) (c : Call) :
    (c.apply q).groupFilters = q.groupFilters ++ (c.argument? .having).toList := by
  cases c with
  | having predicate => rfl
  | _ => exact (List.append_nil _).symm

theorem groups_apply (q : Query) (c : Call) :
    (c.apply q).groups = q.groups ++ (c.argument? .groupBy).toList.flatten := by
  cases c with
  | groupBy items => exact congrArg (q.groups ++ ·) (List.append_nil items).symm
  | _ => exact (List.append_nil _).symm

theorem orders_apply (q : Query) (c : Call) :
    (c.apply q).orders = q.orders ++ (c.argument? .orderBy).toList.flatten := by
  cases c with
  | orderBy entries => exact congrArg (q.orders ++ ·) (List.append_nil entries).symm
  | _ => exact (List.append_nil _).symm

end Call

/-! ### Many calls -/

/-- What calls of a kind are given, first to last. -/
def given (k : Call.Kind) (calls : List Call) : List k.Argument :=
  calls.filterMap (Call.argument? k)

theorem attached_eq_given (calls : List Call) : attached calls = given .innerJoin calls :=
  List.filterMap_congr fun c _ => by cases c <;> rfl

theorem flatMap_argument? (k : Call.Kind) (calls : List Call) :
    (calls.flatMap fun c => (c.argument? k).toList) = given k calls :=
  (List.filterMap_eq_flatMap_toList _ calls).symm

theorem flatMap_flatten {α : Type} (g : Call → Option (List α)) (calls : List Call) :
    (calls.flatMap fun c => (g c).toList.flatten) = (calls.filterMap g).flatten := by
  induction calls with
  | nil => rfl
  | cons c calls ih => cases hc : g c <;> simp [hc, ih]

/-- What each call may put in the place of a value, the last call that does so decides. -/
theorem build_replace {α : Type} {f : Query → Option α} {g : Call → Option α}
    (h : ∀ q c, f (c.apply q) = (g c).or (f q)) (q : Query) (calls : List Call) :
    f (q.build calls) = (calls.filterMap g).getLast?.or (f q) := by
  induction calls generalizing q with
  | nil => rfl
  | cons c calls ih =>
    have hstep : f (q.build (c :: calls)) = f ((c.apply q).build calls) := rfl
    rw [hstep, ih, h]
    cases hc : g c with
    | none => rw [List.filterMap_cons_none hc, Option.none_or]
    | some a =>
      rw [List.filterMap_cons_some hc, List.getLast?_cons]
      cases (calls.filterMap g).getLast? <;> rfl

/-- What a query holds after calls, clause by clause. -/
structure After (q : Query) (calls : List Call) (q' : Query) : Prop where
  source : q'.source = q.source
  selection : q'.selection = (given .select calls).getLast?.or q.selection
  defaultSelection : q'.defaultSelection = q.defaultSelection ++
    (given .innerJoin calls).map fun j => .join (j.rebase q.source.identifier)
  joins : q'.joins = q.joins ++ (given .innerJoin calls).map (Join.rebase q.source.identifier)
  filters : q'.filters = q.filters ++ given .filter calls
  groups : q'.groups = q.groups ++ (given .groupBy calls).flatten
  groupFilters : q'.groupFilters = q.groupFilters ++ given .having calls
  orders : q'.orders = q.orders ++ (given .orderBy calls).flatten
  limit : q'.limit = (given .withLimit calls).getLast?.or q.limit
  offset : q'.offset = (given .withOffset calls).getLast?.or q.offset

theorem after_build (q : Query) (calls : List Call) : q.After calls (q.build calls) where
  source := source_build q calls
  selection := build_replace Call.selection_apply q calls
  defaultSelection := attached_eq_given calls ▸ defaultSelection_build q calls
  joins := attached_eq_given calls ▸ joins_build q calls
  filters := by
    rw [build_append (f := filters) (g := fun _ c => (c.argument? .filter).toList)
      Call.filters_apply, flatMap_argument?]
  groups := by
    rw [build_append (f := groups) (g := fun _ c => (c.argument? .groupBy).toList.flatten)
      Call.groups_apply, flatMap_flatten, given]
  groupFilters := by
    rw [build_append (f := groupFilters) (g := fun _ c => (c.argument? .having).toList)
      Call.groupFilters_apply, flatMap_argument?]
  orders := by
    rw [build_append (f := orders) (g := fun _ c => (c.argument? .orderBy).toList.flatten)
      Call.orders_apply, flatMap_flatten, given]
  limit := build_replace Call.limit_apply q calls
  offset := build_replace Call.offset_apply q calls

/-! ### Calls that come to the same -/

/-- Calls that are given the same in each kind, where the lists of several calls to group or to
order by count as one list. -/
structure Agree (calls calls' : List Call) : Prop where
  given_eq : ∀ k, k ≠ .groupBy → k ≠ .orderBy → given k calls = given k calls'
  groups_eq : (given .groupBy calls).flatten = (given .groupBy calls').flatten
  orders_eq : (given .orderBy calls).flatten = (given .orderBy calls').flatten

/-- Calls that come to the same build the same query. -/
theorem Agree.build_eq {calls calls' : List Call} (h : Agree calls calls') (q : Query) :
    q.build calls = q.build calls' := by
  have hq := q.after_build calls
  have hq' := q.after_build calls'
  have hjoins := h.given_eq .innerJoin nofun nofun
  have hselect := h.given_eq .select nofun nofun
  have hfilter := h.given_eq .filter nofun nofun
  have hhaving := h.given_eq .having nofun nofun
  have hlimit := h.given_eq .withLimit nofun nofun
  have hoffset := h.given_eq .withOffset nofun nofun
  exact Query.ext (by rw [hq.source, hq'.source]) (by rw [hq.selection, hq'.selection, hselect])
    (by rw [hq.defaultSelection, hq'.defaultSelection, hjoins])
    (by rw [hq.joins, hq'.joins, hjoins]) (by rw [hq.filters, hq'.filters, hfilter])
    (by rw [hq.groups, hq'.groups, h.groups_eq])
    (by rw [hq.groupFilters, hq'.groupFilters, hhaving])
    (by rw [hq.orders, hq'.orders, h.orders_eq]) (by rw [hq.limit, hq'.limit, hlimit])
    (by rw [hq.offset, hq'.offset, hoffset])

/-- Calls that agree in those of a kind are given the same in that kind. -/
theorem given_eq_of_filter_kind {k : Call.Kind} {calls calls' : List Call}
    (h : calls.filter (fun c => c.kind = k) = calls'.filter (fun c => c.kind = k)) :
    given k calls = given k calls' := by
  have honly (calls : List Call) :
      (calls.filter fun c => c.kind = k).filterMap (Call.argument? k) = given k calls := by
    rw [List.filterMap_filter]
    refine List.filterMap_congr fun c _ => ?_
    by_cases hc : c.kind = k
    · simp [hc]
    · simp [hc, Call.argument?_of_kind_ne hc]
  rw [← honly calls, ← honly calls', h]

theorem Agree.of_filter_kind {calls calls' : List Call} (h : ∀ k : Call.Kind,
    calls.filter (fun c => c.kind = k) = calls'.filter (fun c => c.kind = k)) :
    Agree calls calls' where
  given_eq k _ _ := given_eq_of_filter_kind (h k)
  groups_eq := congrArg List.flatten (given_eq_of_filter_kind (h .groupBy))
  orders_eq := congrArg List.flatten (given_eq_of_filter_kind (h .orderBy))

theorem given_append (k : Call.Kind) (calls calls' : List Call) :
    given k (calls ++ calls') = given k calls ++ given k calls' :=
  List.filterMap_append

/-- Calls that come to the same do so between any others. -/
theorem Agree.between {calls calls' : List Call} (h : Agree calls calls')
    (before after : List Call) : Agree (before ++ calls ++ after) (before ++ calls' ++ after) where
  given_eq k hgroupBy horderBy := by
    simp only [given_append, h.given_eq k hgroupBy horderBy]
  groups_eq := by
    simp only [given_append, List.flatten_append, h.groups_eq]
  orders_eq := by
    simp only [given_append, List.flatten_append, h.orders_eq]

/-- Calls of other kinds are given nothing. -/
theorem given_map_of_kind_ne {α : Type} {f : α → Call} {k : Call.Kind} (h : ∀ a, (f a).kind ≠ k)
    (as : List α) : given k (as.map f) = [] := by
  rw [given, List.filterMap_map, List.filterMap_eq_nil_iff]
  exact fun a _ => Call.argument?_of_kind_ne (h a)

theorem given_groupBy (parts : List (List SelectItem)) :
    given .groupBy (parts.map .groupBy) = parts := by
  rw [given, List.filterMap_map]
  exact List.filterMap_some

theorem given_orderBy (parts : List (List OrderItem)) :
    given .orderBy (parts.map .orderBy) = parts := by
  rw [given, List.filterMap_map]
  exact List.filterMap_some

/-- Grouping by items in one call comes to grouping by parts of them in several. -/
theorem agree_groupBy (parts : List (List SelectItem)) :
    Agree ([parts.flatten].map .groupBy) (parts.map .groupBy) where
  given_eq k hk _ := by
    have hnone := given_map_of_kind_ne (f := Call.groupBy) (k := k) fun _ => hk.symm
    rw [hnone, hnone]
  groups_eq := by rw [given_groupBy, given_groupBy, List.flatten_singleton]
  orders_eq := by rw [given_map_of_kind_ne nofun, given_map_of_kind_ne nofun]

/-- Ordering by entries in one call comes to ordering by parts of them in several. -/
theorem agree_orderBy (parts : List (List OrderItem)) :
    Agree ([parts.flatten].map .orderBy) (parts.map .orderBy) where
  given_eq k _ hk := by
    have hnone := given_map_of_kind_ne (f := Call.orderBy) (k := k) fun _ => hk.symm
    rw [hnone, hnone]
  groups_eq := by rw [given_map_of_kind_ne nofun, given_map_of_kind_ne nofun]
  orders_eq := by rw [given_orderBy, given_orderBy, List.flatten_singleton]

/-- Calls on different clauses do not interfere. After calls, a query holds in each clause what it
held before and what the calls of one kind are given, or the last of these; queries after calls
that agree in those of each kind compile to the same in every context and read all rows as the
same; and a call that groups or orders by a list may be split into calls that do so by its parts,
whatever calls stand around it. -/
theorem build_interleaved (q : Query) (calls : List Call) :
    q.After calls (q.build calls) ∧
    (∀ calls', (∀ k : Call.Kind, calls.filter (fun c => c.kind = k) =
        calls'.filter (fun c => c.kind = k)) →
      (∀ ctx, (q.build calls).compile ctx = (q.build calls').compile ctx) ∧
      ∀ rows, (q.build calls).materialize rows = (q.build calls').materialize rows) ∧
    (∀ before after (parts : List (List SelectItem)),
      calls = before ++ [.groupBy parts.flatten] ++ after →
      q.build calls = q.build (before ++ parts.map .groupBy ++ after)) ∧
    ∀ before after (parts : List (List OrderItem)),
      calls = before ++ [.orderBy parts.flatten] ++ after →
      q.build calls = q.build (before ++ parts.map .orderBy ++ after) := by
  refine ⟨q.after_build calls, fun calls' h => ?_, fun before after parts h => ?_,
    fun before after parts h => ?_⟩
  · have hq : q.build calls = q.build calls' := (Agree.of_filter_kind h).build_eq q
    rw [hq]
    exact ⟨fun _ => rfl, fun _ => rfl⟩
  · rw [h]
    exact ((agree_groupBy parts).between before after).build_eq q
  · rw [h]
    exact ((agree_orderBy parts).between before after).build_eq q

/-- Joins, predicates and limits in two orders, with a select list that is chosen between two joins
in the one and behind them in the other, and grouping by two items at once. -/
theorem build_interleaved_select :
    let key (name : String) : Field := ⟨name, .int .int64, name, rfl⟩
    let user : Model := ⟨"User", "users", [key "id"], by simp⟩
    let post : Model := ⟨"Post", "posts", [key "author"], by simp⟩
    let id : Expr := .column ⟨"users", "id", "id"⟩
    let on (name : String) : Join := .on name "users" (.ofModel post) fun left right => do
      return .eq (.column (← right.column "author")) (.column (← left.column "id"))
    let q := ofTable (.ofModel user)
    let early := [Call.innerJoin (on "posts"), .select [.expr id], .innerJoin (on "drafts"),
      .withLimit 5]
    let late := [Call.filter (.eq id (.literal (.integer 1))), .withLimit 1]
    let groups := [SelectItem.expr id, .columns (.ofModel post)]
    let calls := early ++ [.groupBy groups] ++ late
    let calls' := [Call.withLimit 5, .innerJoin (on "posts"), .groupBy groups,
      .filter (.eq id (.literal (.integer 1))), .innerJoin (on "drafts"), .withLimit 1,
      .select [.expr id]]
    (∀ k : Call.Kind, calls.filter (fun c => c.kind = k) = calls'.filter (fun c => c.kind = k)) ∧
      (∀ ctx, (q.build calls).compile ctx = (q.build calls').compile ctx) ∧
      (∀ rows, (q.build calls).materialize rows = (q.build calls').materialize rows) ∧
      (q.build calls).limit = some 1 ∧
      (q.build calls).joins.map Join.name = ["posts", "drafts"] ∧
      q.build calls =
        q.build (early ++ [[.expr id], [.columns (.ofModel post)]].map .groupBy ++ late) := by
  intro key user post id on q early late groups calls calls'
  have hkinds (k : Call.Kind) :
      calls.filter (fun c => c.kind = k) = calls'.filter (fun c => c.kind = k) := by
    cases k <;> rfl
  obtain ⟨hafter, hkinded, hgroupBy, -⟩ := build_interleaved q calls
  obtain ⟨hcompile, hmaterialize⟩ := hkinded calls' hkinds
  exact ⟨hkinds, hcompile, hmaterialize, hafter.limit, congrArg (List.map Join.name) hafter.joins,
    hgroupBy early late [[.expr id], [.columns (.ofModel post)]] rfl⟩

end Query

end SqlCompose
