import SqlCompose.Proofs.Query.Identifiers
import SqlCompose.Proofs.Query.Placeholders
import SqlCompose.Proofs.Sql.Pieces

/-!
# One query in two contexts

A query is resolved without a context, so that it fails alike in all of them or compiles in all,
with the same bindings. Its texts are then made of the same pieces: the quoting of a context writes
the names of the query, the dialect writes the placeholders of its bound values, and only the bounds
on the rows, at the end, are written in another way by another dialect.

## Main definitions

* `Statement.bodyTokens`: the tokens of a statement in front of its bounds.

## Main results

* `Query.exists_pieces`: the texts of a statement in all contexts, from the same pieces.
* `Query.compile_contexts`: where the texts of a query in two contexts differ.
-/

namespace SqlCompose

/-- The names in a text are those of its tokens. -/
theorem Token.filterMap_name?_piecesAfter (index : Nat) (before : Token) (ts : List Token) :
    (piecesAfter index before ts).filterMap Piece.name? = names ts := by
  induction ts generalizing index before with
  | nil => rfl
  | cons t ts ih =>
    have hpiece : (t.piece index).name? = t.name? := by
      cases t <;> rfl
    rw [piecesAfter, List.filterMap_cons_none rfl, List.filterMap_cons, hpiece, ih, names, names,
      List.filterMap_cons]

theorem Token.filterMap_name?_piecesOf (ts : List Token) :
    (piecesOf ts).filterMap Piece.name? = names ts := by
  cases ts with
  | nil => rfl
  | cons t ts =>
    have hafter := filterMap_name?_piecesAfter 1 nothing (t :: ts)
    rwa [piecesAfter, List.filterMap_cons_none rfl] at hafter

namespace Statement

/-- The tokens of a statement in front of its bounds on the rows. -/
def bodyTokens (s : Statement) : List Token :=
  ({ s with limit := none, offset := none } : Statement).tokens .sqlite

/-- A dialect has a part in the bounds only. -/
theorem tokens_eq_body (s : Statement) (d : Dialect) :
    s.tokens d = s.bodyTokens ++ d.windowTokens s.limit s.offset :=
  congrArg (· ++ d.windowTokens s.limit s.offset) (List.append_nil _).symm

theorem bodyTokens_ne_nil (s : Statement) : s.bodyTokens ≠ [] := by
  simp [bodyTokens, tokens]

theorem seen_bodyTokens {α : Type} (v : Token.View α) (s : Statement) (d : Dialect) :
    v.seen s.bodyTokens = v.seen (s.tokens d) := by
  rw [tokens_eq_body, v.seen_append, v.seen_windowTokens, List.append_nil]

end Statement

namespace Query

/-- The tokens of a query's statement for any dialect are written from the same pieces in all
contexts, with the bounds of the dialect behind them. -/
theorem exists_pieces {q : Query} {s : Statement} (h : q.statement = .ok s) :
    ∃ pieces, pieces.filterMap Piece.name? = q.identifiers ∧
      pieces.filterMap Piece.index? = List.range' 1 q.literals.length ∧
      ∀ (ctx : Context) (d : Dialect), Token.textOf ctx (s.tokens d) =
        Piece.textOf ctx.quoting.apply ctx.dialect.placeholder pieces ++
          d.tail q.limit q.offset := by
  obtain ⟨space, hspace⟩ :=
    Token.textOf_append_window s.bodyTokens_ne_nil q.limit q.offset
  have hr := resolves_of_statement h
  refine ⟨Token.piecesOf s.bodyTokens ++ [.fixed space], ?_, ?_, fun ctx d => ?_⟩
  · rw [List.filterMap_append, Token.filterMap_name?_piecesOf, Token.names_eq_seen,
      s.seen_bodyTokens _ .sqlite, ← Token.names_eq_seen, names_statement h]
    exact List.append_nil _
  · rw [List.filterMap_append, Token.filterMap_index?_piecesOf, Token.bindings_eq_seen,
      s.seen_bodyTokens _ .sqlite, ← Token.bindings_eq_seen, bindings_statement h]
    exact List.append_nil _
  · rw [s.tokens_eq_body, hr.limit, hr.offset, hspace]

/-- A query fails with one error in all contexts, or it compiles in all of them, with the same
bindings and to texts that are made of the same pieces. The names among the pieces are the names of
the query, which the quoting writes; the placeholders are those of its bound values, which the
dialect writes, two dialects alike; and what is written behind the pieces differs only for an offset
without a limit. Where names stand between marks, taking the numbers of the placeholders out of the
text for the dialect that numbers them gives the text for the dialects that do not. -/
theorem compile_contexts (q : Query) :
    (∃ e, ∀ ctx, q.compile ctx = .error e) ∨
    ∃ pieces, pieces.filterMap Piece.name? = q.identifiers ∧
      pieces.filterMap Piece.index? = List.range' 1 q.literals.length ∧
      (∀ ctx, q.compile ctx = .ok
        ⟨Piece.textOf ctx.quoting.apply ctx.dialect.placeholder pieces ++
          ctx.dialect.tail q.limit q.offset, q.literals⟩) ∧
      (∀ quoting : Quoting, Piece.textOf quoting.apply Dialect.sqlite.placeholder pieces =
        Piece.textOf quoting.apply Dialect.mysql.placeholder pieces) ∧
      (q.limit ≠ none ∨ q.offset = none →
        ∀ d d' : Dialect, d.tail q.limit q.offset = d'.tail q.limit q.offset) ∧
      ∀ (quoting : Quoting) mark, quoting.mark? = some mark →
        let tail := Dialect.postgresql.tail q.limit q.offset
        unnumbered mark .plain
            (Piece.textOf quoting.apply Dialect.postgresql.placeholder pieces ++ tail).toList =
          (Piece.textOf quoting.apply Dialect.sqlite.placeholder pieces ++ tail).toList := by
  cases hs : q.statement with
  | error e =>
    refine Or.inl ⟨e, fun ctx => ?_⟩
    rw [compile, hs]
    rfl
  | ok s =>
    obtain ⟨pieces, hnames, hindices, htext⟩ := exists_pieces hs
    refine Or.inr ⟨pieces, hnames, hindices, fun ctx => ?_, fun _ => rfl, Dialect.tail_eq,
      fun quoting mark hmark => ?_⟩
    · rw [compile, hs, ← htext, ← bindings_statement hs ctx.dialect]
      rfl
    · have hnumbers := Token.unnumbered_textOf hmark (s.tokens .postgresql)
      rwa [htext, htext] at hnumbers

/-- Two placeholders between names with marks and with what looks like a placeholder, and a
limit. -/
theorem compile_contexts_marks :
    let t : TableRef := .ofModel ⟨"M", "a\"$1", [⟨"n", .int .int64, "n$", rfl⟩], by simp⟩
    let n : Expr := .column ⟨"a\"$1", "n$", "n"⟩
    let range : Expr := .between n (.literal (.integer 1)) (.literal (.integer 9)) true
    let q := ((ofTable t).filter range).withLimit 5
    q.limit ≠ none ∧ Quoting.double.mark? = some '"' ∧
      ∃ c c', q.compile ⟨.postgresql, .double⟩ = .ok c ∧ q.compile ⟨.sqlite, .double⟩ = .ok c' ∧
        c.bindings = [.integer 1, .integer 9] ∧ c'.bindings = c.bindings ∧
        unnumbered '"' .plain c.sql.toList = c'.sql.toList := by
  intro t n range q
  have hlimit : q.limit ≠ none := nofun
  have hok : ∃ c, q.compile ⟨.sqlite, .double⟩ = .ok c := ⟨_, rfl⟩
  obtain ⟨e, he⟩ | ⟨pieces, -, -, hcompile, -, htail, hnumbers⟩ := compile_contexts q
  · obtain ⟨c, hc⟩ := hok
    cases (he _).symm.trans hc
  · refine ⟨hlimit, rfl, _, _, hcompile _, hcompile _, rfl, rfl, ?_⟩
    rw [htail (Or.inl hlimit) .sqlite .postgresql]
    exact hnumbers .double '"' rfl

end Query

end SqlCompose
