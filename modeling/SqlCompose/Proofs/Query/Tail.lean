import SqlCompose.Proofs.Query.Contexts
import SqlCompose.Proofs.Query.Outcome

/-!
# The tail of a statement

The bounds on the rows stand at the end of a statement. What stands in front of them is the
statement of the query without bounds, whatever the quoting writes for names: nothing that a
statement ends with takes the space from what follows, so that a space parts the two.

## Main definitions

* `Token.Ended`: token lists behind which a word is written with a space.
* `Compiled.withTail`: a statement with a tail behind it.
* `Query.unbounded`: a query without its bounds.

## Main results

* `Statement.ended_bodyTokens`: a space stands behind a statement without bounds.
* `Query.compile_eq_withTail`: a query is compiled to the statement that it has without bounds, with
  the bounds as its tail.
-/

namespace SqlCompose

/-! ### Ends of token lists -/

namespace Token

/-- A token list that ends with a token which leaves a space before a word behind it. -/
def Ended (ts : List Token) : Prop := ∃ t, ts.getLast? = some t ∧ t.isOpen = false

theorem Ended.gap_keyword {before : Token} {ts : List Token} (h : Ended (before :: ts))
    (k : Keyword) : gap (ts.getLastD before) (keyword k) = " " := by
  obtain ⟨t, hlast, ht⟩ := h
  obtain rfl : ts.getLastD before = t := by
    rw [List.getLast?_cons] at hlast
    rw [← Option.some.inj hlast, List.getLastD_eq_getLast?]
  generalize ts.getLastD before = t at ht
  cases t <;> first | rfl | cases ht

theorem Ended.append_left {us : List Token} (h : Ended us) (ts : List Token) :
    Ended (ts ++ us) := by
  obtain ⟨t, hlast, ht⟩ := h
  exact ⟨t, by rw [List.getLast?_append, hlast, Option.some_or], ht⟩

theorem ended_singleton {t : Token} (h : t.isOpen = false) : Ended [t] := ⟨t, rfl, h⟩

theorem Ended.cons {ts : List Token} (h : Ended ts) (t : Token) : Ended (t :: ts) :=
  h.append_left [t]

/-- What may be absent behind a token list does not change how it ends if it is. -/
theorem Ended.append {ts us : List Token} (hts : Ended ts) (hus : us = [] ∨ Ended us) :
    Ended (ts ++ us) := by
  obtain rfl | hus := hus
  · rwa [List.append_nil]
  · exact hus.append_left ts

theorem ended_closing (ts : List Token) : Ended (ts ++ [closing]) :=
  (ended_singleton rfl).append_left ts

theorem Ended.grouped {ts : List Token} (h : Ended ts) (group : Bool) :
    Ended (grouped group ts) := by
  cases group with
  | false => exact h
  | true => exact ended_closing _

/-- An empty place ends a list, too. -/
theorem ended_commaSeparated {items : List (List Token)} (h : ∀ item ∈ items, Ended item) :
    Ended (commaSeparated items) := by
  induction items with
  | nil => exact ended_singleton rfl
  | cons item items ih =>
    cases items with
    | nil => exact h item List.mem_cons_self
    | cons next items =>
      exact ((ih fun i hi => h i (List.mem_cons_of_mem _ hi)).cons comma).append_left item

end Token

open Token (Ended ended_singleton ended_closing ended_commaSeparated)

/-- An expression ends as its last operand does, or with a word or a parenthesis. -/
theorem Expr.ended_tokens (e : Expr) : Ended e.tokens := by
  cases e with
  | column c => exact ((ended_singleton rfl).cons _).cons _
  | literal v => exact ended_singleton rfl
  | not e => exact (e.ended_tokens.grouped _).cons _
  | binary left op right => exact (right.ended_tokens.grouped _).append_left _
  | nullTest e positive => exact (((ended_singleton rfl).append_left _).cons _).append_left _
  | inList e candidates positive =>
    exact (((ended_closing _).cons _).append_left _).append_left _
  | between e low high positive => exact ((high.ended_tokens.grouped _).cons _).append_left _
  | parens e => exact ended_closing _

theorem ended_aliasTokens (aliasName : Option String) :
    aliasTokens aliasName = [] ∨ Ended (aliasTokens aliasName) := by
  cases aliasName with
  | none => exact .inl rfl
  | some s => exact .inr ((ended_singleton rfl).cons _)

theorem OutputItem.ended_tokens (i : OutputItem) : Ended i.tokens :=
  i.expr.ended_tokens.append (ended_aliasTokens i.aliasName)

theorem SourceClause.ended_tokens (s : SourceClause) : Ended s.tokens :=
  (ended_singleton rfl).append (ended_aliasTokens s.aliasName)

theorem JoinClause.ended_tokens (j : JoinClause) : Ended j.tokens :=
  (j.on.ended_tokens.cons _).append_left _

theorem ended_joinTokens (js : List JoinClause) :
    js.flatMap JoinClause.tokens = [] ∨ Ended (js.flatMap JoinClause.tokens) := by
  induction js with
  | nil => exact .inl rfl
  | cons j js ih => exact .inr (j.ended_tokens.append ih)

theorem ended_predicateTokens (k : Keyword) (e : Option Expr) :
    predicateTokens k e = [] ∨ Ended (predicateTokens k e) := by
  cases e with
  | none => exact .inl rfl
  | some e => exact .inr (e.ended_tokens.cons _)

namespace Statement

theorem ended_groupTokens (groups : Option (List Expr)) :
    groupTokens groups = [] ∨ Ended (groupTokens groups) := by
  cases groups with
  | none => exact .inl rfl
  | some es =>
    have hlist : Ended (Token.commaSeparated (es.map Expr.tokens)) :=
      ended_commaSeparated (List.forall_mem_map.mpr fun e _ => e.ended_tokens)
    exact .inr ((hlist.cons _).cons _)

theorem ended_orderTokens (orders : List OrderClause) :
    orderTokens orders = [] ∨ Ended (orderTokens orders) := by
  cases orders with
  | nil => exact .inl rfl
  | cons o os =>
    have hlist : Ended (Token.commaSeparated ((o :: os).map OrderClause.tokens)) :=
      ended_commaSeparated (List.forall_mem_map.mpr fun o _ =>
        (ended_singleton rfl).append_left o.expr.tokens)
    exact .inr ((hlist.cons _).cons _)

/-- The source of a statement is there in any case, and no clause behind it ends openly. -/
theorem ended_bodyTokens (s : Statement) : Ended s.bodyTokens := by
  have hsource : Ended (.keyword .SELECT :: Token.commaSeparated (s.items.map OutputItem.tokens) ++
      .keyword .FROM :: s.source.tokens) := (s.source.ended_tokens.cons _).append_left _
  have hjoins := hsource.append (ended_joinTokens s.joins)
  have hfilter := hjoins.append (ended_predicateTokens .WHERE s.filter)
  have hgroups := hfilter.append (ended_groupTokens s.groups)
  have hgroupFilter := hgroups.append (ended_predicateTokens .HAVING s.groupFilter)
  have horders := hgroupFilter.append (ended_orderTokens s.orders)
  exact horders.append (.inl rfl)

end Statement

/-! ### Statements with a tail -/

/-- A statement with a tail behind it, if there is one. -/
def Compiled.withTail (body : Compiled) : Option String → Compiled
  | none => body
  | some tail => { body with sql := body.sql ++ " " ++ tail }

theorem Dialect.windowText_eq_tail {limit offset : Option UInt64}
    (h : ¬(limit = none ∧ offset = none)) (d : Dialect) :
    d.windowText limit offset = some (d.tail limit offset) := by
  cases limit with
  | some n => cases offset <;> rfl
  | none =>
    cases offset with
    | some k => cases d <;> rfl
    | none => exact absurd ⟨rfl, rfl⟩ h

/-- The bounds on the rows bind nothing. -/
theorem Token.bindings_append_window (ts : List Token) (d : Dialect)
    (limit offset : Option UInt64) :
    bindings (ts ++ d.windowTokens limit offset) = bindings ts := by
  rw [bindings_eq_seen, bindings_eq_seen, View.seen_append, View.seen_windowTokens,
    List.append_nil]

/-- The bounds stand behind what ends, as the tail of its text. -/
theorem Token.render_append_window {ts : List Token} (h : Ended ts) (ctx : Context) (d : Dialect)
    (limit offset : Option UInt64) :
    render ctx (ts ++ d.windowTokens limit offset) =
      (render ctx ts).withTail (d.windowText limit offset) := by
  by_cases hnone : limit = none ∧ offset = none
  · obtain ⟨rfl, rfl⟩ := hnone
    exact congrArg (render ctx) (List.append_nil ts)
  · obtain ⟨t, ts, rfl⟩ : ∃ t us, ts = t :: us := by
      obtain ⟨t, hlast, -⟩ := h
      exact List.exists_cons_of_ne_nil fun hnil => by rw [hnil] at hlast; cases hlast
    have htext : textOf ctx (t :: ts ++ d.windowTokens limit offset) =
        textOf ctx (t :: ts) ++ " " ++ d.tail limit offset := by
      rw [List.cons_append, textOf, textAfter_append, textAfter_window, if_neg hnone,
        h.gap_keyword, textOf]
      simp only [String.append_assoc]
    rw [Dialect.windowText_eq_tail hnone, render, htext, bindings_append_window]
    rfl

namespace Statement

/-- The statement without its bounds on the rows. -/
def unbounded (s : Statement) : Statement := { s with limit := none, offset := none }

theorem render_eq_withTail (ctx : Context) (s : Statement) : s.render ctx =
    (s.unbounded.render ctx).withTail (ctx.dialect.windowText s.limit s.offset) := by
  rw [render, tokens_eq_body, Token.render_append_window s.ended_bodyTokens]
  rfl

end Statement

namespace Query

/-- The query without its bounds on the rows. -/
def unbounded (q : Query) : Query := { q with limit := none, offset := none }

/-- The bounds have no part in whether a query can be written. -/
theorem statement_unbounded (q : Query) :
    q.unbounded.statement = q.statement.map Statement.unbounded := by
  cases hs : q.statement with
  | ok s =>
    obtain ⟨hi, hs, hj, hf, hg, hgf, ho, -, -⟩ := statement_eq_ok_iff.mp hs
    exact statement_eq_ok_iff.mpr ⟨hi, hs, hj, hf, hg, hgf, ho, rfl, rfl⟩
  | error e => exact (reports_statement q.unbounded e).mpr ((reports_statement q e).mp hs)

/-- A query is compiled to the statement that it has without bounds, with the bounds as its tail. -/
theorem compile_eq_withTail (ctx : Context) (q : Query) :
    q.compile ctx = (q.unbounded.compile ctx).map
      (·.withTail (ctx.dialect.windowText q.limit q.offset)) := by
  rw [compile, compile, statement_unbounded]
  cases hs : q.statement with
  | error e => rfl
  | ok s =>
    have hr := resolves_of_statement hs
    rw [← hr.limit, ← hr.offset]
    exact congrArg Except.ok (s.render_eq_withTail ctx)

end Query

end SqlCompose
