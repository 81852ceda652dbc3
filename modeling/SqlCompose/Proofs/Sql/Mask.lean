import Mathlib.Data.List.Forall2
import SqlCompose.Proofs.Sql.Lexeme

/-!
# Statements up to names or values

A mask says what is kept of the names and of the bound values of a statement. Where a statement is
grouped, and which tokens it has, depends on neither, so that masking a statement and writing it
come to the same as writing it and masking its tokens. Two statements that a mask makes equal are
therefore written with tokens that differ at most in what the mask hides, place by place.

## Main definitions

* `Mask`, `Mask.names`: what is kept, and the mask that hides the names and nothing else.
* `Expr.masked`, `Statement.masked`, `Lexeme.masked`: what is left of an expression, of a
  statement, and of what text is read into.
* `Lexeme.SameButName`: lexemes that are equal, names apart.

## Main results

* `Statement.tokens_masked`: masking comes to the same before and after writing.
* `Lexeme.forall₂_of_masked`: lexemes that are equal once their names are hidden.
-/

namespace SqlCompose

/-- What is kept of the names and of the bound values. -/
structure Mask where
  name : String → String
  value : Value → Value

/-- Hides the names. -/
def Mask.names : Mask := ⟨fun _ => "", id⟩

section

variable (m : Mask)

/-! ### What is left -/

/-- A token with its name or its bound value masked. -/
def Token.masked : Token → Token
  | name s => name (m.name s)
  | bound v => bound (m.value v)
  | t => t

/-- A column with its names masked. The field is not written and is left out. -/
def Column.masked (c : Column) : Column := ⟨m.name c.table, m.name c.column, ""⟩

namespace Expr

mutual

/-- An expression with its columns and literals masked. -/
def masked : Expr → Expr
  | column c => column (c.masked m)
  | literal v => literal (m.value v)
  | not e => not e.masked
  | binary left op right => binary left.masked op right.masked
  | nullTest e positive => nullTest e.masked positive
  | inList e candidates positive => inList e.masked (maskedEach candidates) positive
  | between e low high positive => between e.masked low.masked high.masked positive
  | parens e => parens e.masked

/-- The expressions masked one by one. -/
def maskedEach : List Expr → List Expr
  | [] => []
  | e :: es => e.masked :: maskedEach es

end

end Expr

/-- A select entry masked. -/
def OutputItem.masked (i : OutputItem) : OutputItem := ⟨i.expr.masked m, i.aliasName.map m.name⟩

/-- A table with its names masked. -/
def SourceClause.masked (s : SourceClause) : SourceClause :=
  ⟨m.name s.table, s.aliasName.map m.name⟩

/-- A join masked. -/
def JoinClause.masked (j : JoinClause) : JoinClause := ⟨j.source.masked m, j.on.masked m⟩

/-- An order entry masked. -/
def OrderClause.masked (o : OrderClause) : OrderClause := ⟨o.expr.masked m, o.keyword⟩

/-- A statement masked. -/
def Statement.masked (s : Statement) : Statement where
  items := s.items.map (OutputItem.masked m)
  source := s.source.masked m
  joins := s.joins.map (JoinClause.masked m)
  filter := s.filter.map (Expr.masked m)
  groups := s.groups.map (List.map (Expr.masked m))
  groupFilter := s.groupFilter.map (Expr.masked m)
  orders := s.orders.map (OrderClause.masked m)
  limit := s.limit
  offset := s.offset

/-! ### Tokens of what is left -/

namespace Token

@[simp] theorem map_masked_grouped (group : Bool) (ts : List Token) :
    (grouped group ts).map (masked m) = grouped group (ts.map (masked m)) := by
  cases group <;> simp [grouped, masked]

theorem map_masked_commaSeparated : (items : List (List Token)) →
    (commaSeparated items).map (masked m) =
      commaSeparated (items.map fun item => item.map (masked m))
  | [] => rfl
  | [_] => rfl
  | item :: next :: items => by
    rw [commaSeparated, List.map_append, List.map_cons, map_masked_commaSeparated (next :: items)]
    · rfl
    · exact List.cons_ne_nil next items

end Token

namespace Expr

@[simp] theorem strength_masked (e : Expr) : (e.masked m).strength = e.strength := by
  cases e <;> rfl

theorem groupedUnder_masked (op : Op) (side : Side) (e : Expr) :
    (e.masked m).groupedUnder op side = e.groupedUnder op side := by
  have hrepeats : (e.masked m).repeats op = e.repeats op := by cases e <;> rfl
  simp [groupedUnder, hrepeats]

theorem groupedBelow_masked (strength : Nat) (e : Expr) :
    (e.masked m).groupedBelow strength = e.groupedBelow strength := by
  simp [groupedBelow]

@[simp] theorem map_masked_op (op : Op) : op.tokens.map (Token.masked m) = op.tokens := by
  cases op <;> rfl

@[simp] theorem map_masked_polarity (positive : Bool) :
    (polarity positive).map (Token.masked m) = polarity positive := by
  cases positive <;> rfl

mutual

/-- The tokens of a masked expression are those of the expression, masked: a mask keeps all that
groups depend on. -/
theorem tokens_masked : (e : Expr) → (e.masked m).tokens = e.tokens.map (Token.masked m)
  | column c => rfl
  | literal v => rfl
  | not e => by
    simp [masked, tokens, groupedBelow_masked, tokens_masked e, Token.masked]
  | binary left op right => by
    simp [masked, tokens, groupedUnder_masked, tokens_masked left, tokens_masked right]
  | nullTest e positive => by
    simp [masked, tokens, groupedBelow_masked, tokens_masked e, Token.masked]
  | inList e candidates positive => by
    simp [masked, tokens, groupedBelow_masked, tokens_masked e, Token.masked,
      Token.map_masked_commaSeparated, tokensEach_masked candidates]
  | between e low high positive => by
    simp [masked, tokens, groupedBelow_masked, tokens_masked e, tokens_masked low,
      tokens_masked high, Token.masked]
  | parens e => by simp [masked, tokens, tokens_masked e]

theorem tokensEach_masked : (es : List Expr) →
    tokensEach (maskedEach m es) = (tokensEach es).map fun ts => ts.map (Token.masked m)
  | [] => rfl
  | e :: es => by
    rw [maskedEach, tokensEach, tokensEach, tokens_masked e, tokensEach_masked es, List.map_cons]

end

/-- A conjunction is masked predicate by predicate. -/
theorem masked_all (e : Expr) (es : List Expr) :
    (all (e :: es)).masked m = all ((e :: es).map (masked m)) := by
  have hfold (acc : Expr) (es : List Expr) :
      (es.foldl (fun left right => binary left .and right) acc).masked m =
        (es.map (masked m)).foldl (fun left right => binary left .and right) (acc.masked m) := by
    induction es generalizing acc with
    | nil => rfl
    | cons f fs ih => exact ih (binary acc .and f)
  exact hfold e es

end Expr

theorem aliasTokens_masked (a : Option String) :
    aliasTokens (a.map m.name) = (aliasTokens a).map (Token.masked m) := by
  cases a <;> rfl

theorem OutputItem.tokens_masked (i : OutputItem) :
    (i.masked m).tokens = i.tokens.map (Token.masked m) := by
  rw [tokens, tokens, masked, Expr.tokens_masked, aliasTokens_masked, List.map_append]

theorem SourceClause.tokens_masked (s : SourceClause) :
    (s.masked m).tokens = s.tokens.map (Token.masked m) := by
  rw [tokens, tokens, masked, aliasTokens_masked, List.map_cons]
  rfl

theorem JoinClause.tokens_masked (j : JoinClause) :
    (j.masked m).tokens = j.tokens.map (Token.masked m) := by
  simp [tokens, masked, SourceClause.tokens_masked, Expr.tokens_masked, Token.masked]

theorem OrderClause.tokens_masked (o : OrderClause) :
    (o.masked m).tokens = o.tokens.map (Token.masked m) := by
  rw [tokens, tokens, masked, Expr.tokens_masked, List.map_append]
  rfl

theorem predicateTokens_masked (k : Keyword) (p : Option Expr) :
    predicateTokens k (p.map (Expr.masked m)) = (predicateTokens k p).map (Token.masked m) := by
  cases p with
  | none => rfl
  | some e =>
    rw [Option.map_some, predicateTokens, predicateTokens, Expr.tokens_masked, List.map_cons]
    rfl

theorem Dialect.map_masked_windowTokens (d : Dialect) (limit offset : Option UInt64) :
    (d.windowTokens limit offset).map (Token.masked m) = d.windowTokens limit offset := by
  cases d <;> cases limit <;> cases offset <;> rfl

/-- A list of entries is written from the masked entries as from the entries. -/
private theorem commaSeparated_masked {α : Type} {tokens : α → List Token} {masked : α → α}
    (h : ∀ x, tokens (masked x) = (tokens x).map (Token.masked m)) (xs : List α) :
    Token.commaSeparated ((xs.map masked).map tokens) =
      (Token.commaSeparated (xs.map tokens)).map (Token.masked m) := by
  rw [Token.map_masked_commaSeparated, List.map_map, List.map_map]
  exact congrArg _ (List.map_congr_left fun x _ => h x)

namespace Statement

theorem groupTokens_masked (groups : Option (List Expr)) :
    groupTokens (groups.map (List.map (Expr.masked m))) =
      (groupTokens groups).map (Token.masked m) := by
  cases groups with
  | none => rfl
  | some es =>
    have hlist := commaSeparated_masked m (Expr.tokens_masked m) es
    exact congrArg (.keyword .GROUP :: .keyword .BY :: ·) hlist

theorem orderTokens_masked (orders : List OrderClause) :
    orderTokens (orders.map (OrderClause.masked m)) =
      (orderTokens orders).map (Token.masked m) := by
  cases orders with
  | nil => rfl
  | cons o os =>
    have hlist := commaSeparated_masked m (OrderClause.tokens_masked m) (o :: os)
    exact congrArg (.keyword .ORDER :: .keyword .BY :: ·) hlist

/-- Masking a statement and writing it comes to the same as writing it and masking its tokens. -/
theorem tokens_masked (d : Dialect) (s : Statement) :
    (s.masked m).tokens d = (s.tokens d).map (Token.masked m) := by
  have hjoins : (s.joins.map (JoinClause.masked m)).flatMap JoinClause.tokens =
      (s.joins.flatMap JoinClause.tokens).map (Token.masked m) := by
    rw [List.flatMap_map, List.map_flatMap]
    exact congrArg (s.joins.flatMap ·) (funext (JoinClause.tokens_masked m))
  have hitems := commaSeparated_masked m (OutputItem.tokens_masked m) s.items
  simp only [tokens, masked, hjoins, hitems, SourceClause.tokens_masked, predicateTokens_masked,
    groupTokens_masked, orderTokens_masked, Dialect.map_masked_windowTokens, List.map_append,
    List.map_cons, Token.masked]

end Statement

/-! ### Lexemes of what is left -/

/-- A lexeme with its name masked. Placeholders stand for values and show none. -/
def Lexeme.masked : Lexeme → Lexeme
  | token t => token (t.masked m)
  | placeholder text => placeholder text

theorem Token.lexemes_masked (d : Dialect) (index : Nat) (t : Token) :
    (t.masked m).lexemes d index = (t.lexemes d index).map (Lexeme.masked m) := by
  cases t with
  | number n => cases n <;> rfl
  | _ => rfl

theorem Token.lexemesFrom_masked (d : Dialect) (index : Nat) (ts : List Token) :
    lexemesFrom d index (ts.map (masked m)) =
      (lexemesFrom d index ts).map (Lexeme.masked m) := by
  induction ts generalizing index with
  | nil => rfl
  | cons t ts ih =>
    have hnext : (t.masked m).nextIndex index = t.nextIndex index := by cases t <;> rfl
    rw [List.map_cons, lexemesFrom, lexemesFrom, hnext, ih, lexemes_masked, List.map_append]

end

/-- Two lexemes that are equal, or that are both names. -/
def Lexeme.SameButName (l l' : Lexeme) : Prop :=
  l = l' ∨ ∃ s s', l = token (.name s) ∧ l' = token (.name s')

theorem Token.eq_or_names_of_masked {t t' : Token} (h : t.masked .names = t'.masked .names) :
    t = t' ∨ ∃ s s', t = name s ∧ t' = name s' := by
  cases t <;> cases t' <;> simp_all [masked, Mask.names]

/-- Lexemes that are equal once their names are hidden differ in names only, place by place. -/
theorem Lexeme.forall₂_of_masked {ls ls' : List Lexeme}
    (h : ls.map (masked .names) = ls'.map (masked .names)) :
    List.Forall₂ SameButName ls ls' := by
  have hplaces : List.Forall₂ (fun l l' => masked .names l = masked .names l') ls ls' := by
    rwa [← List.forall₂_eq_eq_eq, List.forall₂_map_left_iff, List.forall₂_map_right_iff] at h
  refine hplaces.imp fun l l' hl => ?_
  cases l with
  | placeholder text =>
    cases l' with
    | placeholder text' => exact Or.inl hl
    | token t' => cases hl
  | token t =>
    cases l' with
    | placeholder text' => cases hl
    | token t' =>
      rcases Token.eq_or_names_of_masked (token.inj hl) with rfl | ⟨s, s', rfl, rfl⟩
      · exact Or.inl rfl
      · exact Or.inr ⟨s, s', rfl, rfl⟩

end SqlCompose
