import SqlCompose.Proofs.Expr.Reading
import SqlCompose.Proofs.Query.Clauses
import SqlCompose.Proofs.Sql.Sections

/-!
# What is read in the text of a query

The text of a compiled query is turned into tokens again, and these are cut into sections. What is
found in the sections is what the statement has: the entries of its lists, the tables that it reads,
and the conditions that these are joined on. Nothing of the statement is used for the reading but
the mark that names are quoted with.

A list of candidates without an entry would be written as a list that no token is seen in. It never
stands in a statement that a query comes to, so that the tokens of every expression are seen.

## Main definitions

* `Compiled.tokens?`: the tokens of a text, with the bindings in the places of the placeholders.
* `Compiled.sections`, `Compiled.listIn`, `Compiled.sources`, `Compiled.joined`: what is found in a
  text.
* `Statement.Legible`: statements whose tokens are all seen, but for the places of empty lists.

## Main results

* `Query.legible_of_statement`: the statement of a query is legible.
* `Statement.Legible.sections_render`: the sections that are found in the text of a statement.
* `Statement.Legible.sources_render`, `Statement.Legible.joined_render`: the tables that are found
  in it.
* `Query.listIn_compile`: the lists that are found in the text of a query are those of its items.
-/

namespace SqlCompose

/-! ### The tokens of a text -/

/-- The tokens of a text in which `mark` quotes names, with the bindings in the places of the
placeholders. -/
def Compiled.tokens? (mark : Char) (c : Compiled) : Option (List Token) := do
  let ls ← Lexeme.lex mark c.sql.toList
  Lexeme.fill c.bindings 0 ls

theorem Compiled.tokens?_render {ctx : Context} {mark : Char} (h : ctx.quoting.mark? = some mark)
    (ts : List Token) :
    (Token.render ctx ts).tokens? mark = some (ts.flatMap Token.visible) := by
  rw [tokens?, Token.render, Lexeme.lex_textOf h]
  exact Lexeme.fill_lexemesFrom ctx.dialect [] ts

namespace Compiled

variable (mark : Char) (c : Compiled)

/-- The sections of a text in which `mark` quotes names. -/
def sections : Option (List (List Token)) := (c.tokens? mark).map Token.sections

/-- The tables that a text in which `mark` quotes names reads from, first to last. -/
def sources : Option (List SourceClause) := (c.tokens? mark).map Token.sources

/-- The tables that are joined in a text in which `mark` quotes names, first to last, each with the
tokens of the condition. -/
def joined : Option (List (SourceClause × List Token)) := (c.tokens? mark).map Token.joined

end Compiled

/-- The entries of the list behind words in a text in which `mark` quotes names. -/
def Compiled.listIn (mark : Char) (words : List Keyword) (c : Compiled) :
    Option (List (List Token)) :=
  (c.tokens? mark).bind (Token.listIn words)

/-! ### Expressions that can be written -/

theorem Join.hasEmptyIn_outputs (j : Join) : ∀ i ∈ j.outputs, i.expr.hasEmptyIn = false := by
  intro i hi
  rw [Join.outputs_eq_walk j.right] at hi
  obtain ⟨step, -, hi⟩ := List.mem_flatMap.mp hi
  obtain ⟨c, -, rfl⟩ := List.mem_map.mp hi
  rfl

namespace SelectItem

theorem hasEmptyIn_entries {item : SelectItem} {os : List OutputItem} (h : item.outputs = .ok os) :
    ∀ i ∈ item.entries, i.expr.hasEmptyIn = false := by
  cases item with
  | expr e | aliased e aliasName =>
    obtain ⟨f, hf, -⟩ := bind_eq_ok_iff.mp h
    exact List.forall_mem_singleton.mpr (Expr.eq_of_checked hf).1
  | columns t =>
    intro i hi
    obtain ⟨c, -, rfl⟩ := List.mem_map.mp hi
    rfl
  | join j => exact j.hasEmptyIn_outputs

theorem exists_outputs_of_groups {item : SelectItem} {es : List Expr}
    (h : item.groups = .ok es) : ∃ os, item.outputs = .ok os := by
  cases item with
  | aliased e aliasName => cases h
  | expr e | columns t | join j =>
    obtain ⟨os, hos, -⟩ := bind_eq_ok_iff.mp h
    exact ⟨os, hos⟩

/-- Where every item can be written, every entry can. -/
theorem hasEmptyIn_flatMap_entries {items : List SelectItem}
    (h : ∀ item ∈ items, ∃ os, item.outputs = .ok os) :
    ∀ i ∈ items.flatMap entries, i.expr.hasEmptyIn = false := by
  intro i hi
  obtain ⟨item, hitem, hi⟩ := List.mem_flatMap.mp hi
  obtain ⟨os, hos⟩ := h item hitem
  exact hasEmptyIn_entries hos i hi

end SelectItem

namespace Query

/-- Where a select list can be written, each of its items can. -/
theorem exists_outputs_of_outputs {q : Query} {items : List OutputItem}
    (h : q.outputs = .ok items) : ∀ item ∈ q.selected, ∃ os, item.outputs = .ok os := by
  obtain ⟨-, parts, hparts, -⟩ := outputs_eq_ok_iff.mp h
  exact exists_of_mem_of_mapM hparts

/-- Where a group list can be written, each of its items can. -/
theorem exists_outputs_of_groupList {q : Query} {groups : Option (List Expr)}
    (h : q.groupList = .ok groups) : ∀ item ∈ q.groups, ∃ os, item.outputs = .ok os := by
  intro item hitem
  rw [groupList, if_neg fun hempty => List.not_mem_nil (List.isEmpty_iff.mp hempty ▸ hitem)] at h
  obtain ⟨parts, hparts, -⟩ := bind_eq_ok_iff.mp h
  obtain ⟨es, hes⟩ := exists_of_mem_of_mapM hparts item hitem
  exact SelectItem.exists_outputs_of_groups hes

end Query

/-- The condition of a clause that a join is written as can be written. -/
theorem Join.hasEmptyIn_of_clause {parent : TableRef} {j : Join} {clause : JoinClause}
    (h : j.clause parent = .ok clause) : clause.on.hasEmptyIn = false := by
  obtain ⟨e, -, hchecked⟩ := bind_eq_ok_iff.mp h
  obtain ⟨f, hf, hok⟩ := bind_eq_ok_iff.mp hchecked
  obtain ⟨hin, rfl⟩ := Expr.eq_of_checked hf
  cases hok
  exact hin

/-- Whether the lists and the conditions of a statement can be written, and the words behind the
entries of its order list begin no clause. -/
structure Statement.Legible (s : Statement) : Prop where
  items : ∀ i ∈ s.items, i.expr.hasEmptyIn = false
  joins : ∀ j ∈ s.joins, j.on.hasEmptyIn = false
  groups : ∀ es ∈ s.groups, ∀ e ∈ es, e.hasEmptyIn = false
  orders : Ordered s.orders

/-- The statement that a query comes to is legible. -/
theorem Query.legible_of_statement {q : Query} {s : Statement} (h : q.statement = .ok s) :
    s.Legible := by
  obtain ⟨hoi, -, hoj, -, hog, -⟩ := statement_eq_ok_iff.mp h
  constructor
  case items =>
    rw [items_eq_flatMap_entries hoi]
    exact SelectItem.hasEmptyIn_flatMap_entries (exists_outputs_of_outputs hoi)
  case joins =>
    intro j hj
    obtain ⟨step, -, hclause⟩ := exists_of_mem_of_forall₂ (mapM_eq_ok_iff_forall₂.mp hoj) j hj
    exact Join.hasEmptyIn_of_clause hclause
  case groups =>
    have hentries := SelectItem.hasEmptyIn_flatMap_entries (exists_outputs_of_groupList hog)
    rw [eq_of_groupList hog, groupExprs]
    split
    · exact fun es hes => absurd hes (Option.not_mem_none es)
    · intro es hes e he
      obtain rfl := Option.mem_some.mp hes
      obtain ⟨i, hi, rfl⟩ := List.mem_map.mp he
      exact hentries i hi
  case orders =>
    rw [(resolves_of_statement h).orders, Statement.Ordered, List.forall_mem_map]
    rintro ⟨e, _ | _⟩ - <;> rfl

/-! ### Entries that are seen -/

namespace Token

theorem flatMap_visible_commaSeparated {items : List (List Token)} (hne : items ≠ [])
    (h : ∀ ts ∈ items, ts.flatMap visible = ts) :
    (commaSeparated items).flatMap visible = commaSeparated items := by
  fun_induction commaSeparated items with
  | case1 => exact absurd rfl hne
  | case2 item => exact h item List.mem_cons_self
  | case3 item items hitems ih =>
    have hrest := ih (fun h => hitems h) fun ts hts => h ts (List.mem_cons_of_mem _ hts)
    rw [List.flatMap_append, List.flatMap_cons, h item List.mem_cons_self, hrest]
    rfl

theorem commaSeparated_ne_nil {items : List (List Token)} (h : ∀ ts ∈ items, ts ≠ []) :
    commaSeparated items ≠ [] := by
  fun_cases commaSeparated items with
  | case1 => exact List.cons_ne_nil _ _
  | case2 item => exact h item List.mem_cons_self
  | case3 item items => simp

/-- The entries of the list that is seen behind words at the front of a section. -/
def seenBehind (words : List Keyword) (run : List Token) : Option (List (List Token)) :=
  (behind words (run.flatMap visible)).map entries

theorem listIn_visible (words : List Keyword) (ts : List Token) :
    listIn words (ts.flatMap visible) = (sections ts).findSome? (seenBehind words) := by
  rw [listIn, sections_visible, List.findSome?_map]
  rfl

/-- The entries of a list are found in what is seen of it, even if there is none. -/
theorem entries_commaSeparated {items : List (List Token)} (huncut : ∀ ts ∈ items, Opaque 0 ts)
    (hvisible : ∀ ts ∈ items, ts.flatMap visible = ts) (hne : ∀ ts ∈ items, ts ≠ []) :
    entries ((commaSeparated items).flatMap visible) = items := by
  by_cases hitems : items = []
  · rw [hitems]
    rfl
  · have hend : entriesFrom 0 [] = [[]] := rfl
    have hread := entriesFrom_commaSeparated hitems huncut hend
    rw [List.append_nil] at hread
    rw [flatMap_visible_commaSeparated hitems hvisible]
    cases hlist : commaSeparated items with
    | nil => exact absurd hlist (commaSeparated_ne_nil hne)
    | cons t ts => rw [entries, ← hlist, hread]

end Token

namespace Expr

theorem flatMap_visible_tokens {e : Expr} (h : e.hasEmptyIn = false) :
    e.tokens.flatMap Token.visible = e.tokens :=
  (e.reads_tokens h).flatMap_visible

theorem tokens_ne_nil (e : Expr) : e.tokens ≠ [] := by
  obtain ⟨t, us, h, -⟩ := e.beginsSeen_tokens
  rw [h]
  exact List.cons_ne_nil t us

/-- The tokens of expressions are found in a list of them. -/
theorem entries_tokens {es : List Expr} (h : ∀ e ∈ es, e.hasEmptyIn = false) :
    Token.entries ((Token.commaSeparated (es.map tokens)).flatMap Token.visible) =
      es.map tokens := by
  refine Token.entries_commaSeparated ?_ ?_ ?_ <;> rw [List.forall_mem_map]
  · exact fun e _ => e.opaque_tokens
  · exact fun e he => flatMap_visible_tokens (h e he)
  · exact fun e _ => e.tokens_ne_nil

end Expr

/-- The tokens of select entries are found in a list of them. -/
theorem OutputItem.entries_tokens {items : List OutputItem}
    (h : ∀ i ∈ items, i.expr.hasEmptyIn = false) :
    Token.entries ((Token.commaSeparated (items.map tokens)).flatMap Token.visible) =
      items.map tokens := by
  refine Token.entries_commaSeparated ?_ ?_ ?_ <;> rw [List.forall_mem_map]
  · exact fun i _ => i.opaque_tokens
  · intro i hi
    rw [tokens, List.flatMap_append, Expr.flatMap_visible_tokens (h i hi)]
    cases i.aliasName <;> rfl
  · exact fun i _ hnil => i.expr.tokens_ne_nil (List.append_eq_nil_iff.mp hnil).1

/-! ### What is read in a statement -/

theorem SourceClause.flatMap_visible_tokens (s : SourceClause) :
    s.tokens.flatMap Token.visible = s.tokens := by
  obtain ⟨table, _ | aliasName⟩ := s <;> rfl

theorem JoinClause.flatMap_visible_tokens {j : JoinClause} (h : j.on.hasEmptyIn = false) :
    j.tokens.flatMap Token.visible = j.tokens := by
  rw [tokens, List.flatMap_append, List.flatMap_cons, List.flatMap_cons, List.flatMap_cons,
    j.source.flatMap_visible_tokens, Expr.flatMap_visible_tokens h]
  rfl

namespace Statement

open Token

variable {s : Statement}

/-- The tokens of a statement are seen in its text. -/
theorem tokens?_render {ctx : Context} {mark : Char} (hmark : ctx.quoting.mark? = some mark)
    (s : Statement) :
    (s.render ctx).tokens? mark = some ((s.tokens ctx.dialect).flatMap visible) :=
  Compiled.tokens?_render hmark _

/-- What stands behind `GROUP` and nowhere else is found in the group list. -/
theorem findSome?_sections {α : Type} {f : List Token → Option α} (h : Ordered s.orders)
    (hother : ∀ k ts, k ≠ .GROUP → f (keyword k :: ts) = none) {d : Dialect} :
    (sections (s.tokens d)).findSome? f = (s.groups.toList.map fun es =>
      keyword .GROUP :: keyword .BY :: commaSeparated (es.map Expr.tokens)).findSome? f := by
  have hjoins : (s.joins.map JoinClause.tokens).findSome? f = none := by
    rw [List.findSome?_map, List.findSome?_eq_none_iff]
    exact fun j _ => hother .INNER _ (by decide)
  have hpredicate (k : Keyword) (hk : k ≠ .GROUP) (o : Option Expr) :
      (o.toList.map fun e => keyword k :: e.tokens).findSome? f = none := by
    rw [List.findSome?_map, List.findSome?_eq_none_iff]
    exact fun e _ => hother k _ hk
  have horders : (if s.orders.isEmpty then [] else [orderTokens s.orders]).findSome? f = none := by
    cases s.orders with
    | nil => rfl
    | cons o os =>
      rw [List.findSome?_eq_none_iff]
      exact List.forall_mem_singleton.mpr (hother .ORDER _ (by decide))
  have hwindow : (sections (d.windowTokens s.limit s.offset)).findSome? f = none := by
    rw [List.findSome?_eq_none_iff]
    cases d <;> cases s.limit <;> cases s.offset <;>
      simp [Dialect.windowTokens, sections, inside, hother]
  rw [sections_tokens h, laterSections, List.findSome?_cons, hother .SELECT _ (by decide)]
  simp only [List.findSome?_cons, List.findSome?_append, hother .FROM _ (by decide), hjoins,
    hpredicate .WHERE (by decide), hpredicate .HAVING (by decide), horders, hwindow, Option.none_or,
    Option.or_none]

namespace Legible

variable (h : s.Legible) {ctx : Context} {mark : Char} (hmark : ctx.quoting.mark? = some mark)

include h hmark

theorem sections_render : (s.render ctx).sections mark = some (
    (keyword .SELECT :: (commaSeparated (s.items.map OutputItem.tokens)).flatMap visible) ::
      (keyword .FROM :: s.source.tokens) ::
        (s.joins.map JoinClause.tokens ++
          (s.laterSections ctx.dialect).map (·.flatMap visible))) := by
  have hsource : (keyword .FROM :: s.source.tokens).flatMap visible =
      keyword .FROM :: s.source.tokens :=
    congrArg (keyword .FROM :: ·) s.source.flatMap_visible_tokens
  have hjoins : (s.joins.map JoinClause.tokens).map (·.flatMap visible) =
      s.joins.map JoinClause.tokens := by
    rw [List.map_map]
    exact List.map_congr_left fun j hj => JoinClause.flatMap_visible_tokens (h.joins j hj)
  rw [Compiled.sections, tokens?_render hmark, Option.map_some, sections_visible,
    sections_tokens h.orders, List.map_cons, List.map_cons, List.map_append, hsource, hjoins]
  rfl

/-- The select list that is found in the text of a statement is its own. -/
theorem listIn_select : (s.render ctx).listIn mark [.SELECT] =
    some (s.items.map OutputItem.tokens) := by
  rw [Compiled.listIn, tokens?_render hmark, Option.bind_some, listIn_visible,
    sections_tokens h.orders]
  exact congrArg some (OutputItem.entries_tokens h.items)

/-- The group list that is found in the text of a statement is its own, and there is one only if it
has one. -/
theorem listIn_groups : (s.render ctx).listIn mark [.GROUP, .BY] =
    s.groups.map fun es => es.map Expr.tokens := by
  have hother : ∀ k ts, k ≠ .GROUP → seenBehind [.GROUP, .BY] (keyword k :: ts) = none := by
    intro k ts hk
    simp [seenBehind, visible, behind, hk]
  rw [Compiled.listIn, tokens?_render hmark, Option.bind_some, listIn_visible,
    findSome?_sections h.orders hother]
  cases hes : s.groups with
  | none => rfl
  | some es => exact congrArg some (Expr.entries_tokens (h.groups es hes))

/-- What sources and joins are read as is found in the text of a statement where they stand. -/
theorem filterMap_sections_render {α : Type} {f : List Token → Option α}
    (hselect : ∀ ts, f (keyword .SELECT :: ts) = none)
    (hlater : ∀ run, isLater run = true → f run = none) :
    ((s.render ctx).sections mark).map (List.filterMap f) =
      some ((f (keyword .FROM :: s.source.tokens)).toList ++
        s.joins.filterMap fun j => f j.tokens) := by
  have hnone : ((s.laterSections ctx.dialect).map (·.flatMap visible)).filterMap f = [] := by
    rw [List.filterMap_eq_nil_iff, List.forall_mem_map]
    intro run hrun
    obtain ⟨k, ts, rfl, hk⟩ := exists_keyword_of_mem_laterSections run hrun
    refine hlater _ ?_
    cases k <;> first | rfl | cases hk
  rw [h.sections_render hmark, Option.map_some, List.filterMap_cons_none (hselect _),
    List.filterMap_cons, List.filterMap_append, hnone, List.append_nil, List.filterMap_map]
  cases f (keyword .FROM :: s.source.tokens) <;> rfl

/-- The tables that are found in the text of a statement are its source and those of its joins. -/
theorem sources_render : (s.render ctx).sources mark =
    some (s.source :: s.joins.map JoinClause.source) := by
  have hread := h.filterMap_sections_render hmark (f := sourceIn) (fun _ => rfl)
    fun _ => sourceIn_of_isLater
  rw [sourceIn_from, funext sourceIn_join, List.filterMap_eq_map', Compiled.sections,
    Option.map_map] at hread
  exact hread

/-- The conditions that are found in the text of a statement are those of its joins. -/
theorem joined_render : (s.render ctx).joined mark =
    some (s.joins.map fun j => (j.source, j.on.tokens)) := by
  have hread := h.filterMap_sections_render hmark (f := joinIn) (fun _ => rfl)
    fun _ => joinIn_of_isLater
  rw [funext joinIn_join, List.filterMap_eq_map', Compiled.sections, Option.map_map] at hread
  exact hread

end Legible

end Statement

/-! ### The lists of a compiled query -/

/-- The lists that are read in the text of a compiled query are those that the items of the query
stand for, and a group list is there only if there is an item. -/
theorem Query.listIn_compile {q : Query} {ctx : Context} {mark : Char}
    (hmark : ctx.quoting.mark? = some mark) {c : Compiled} (h : q.compile ctx = .ok c) :
    c.listIn mark [.SELECT] =
      some ((q.selected.flatMap SelectItem.entries).map OutputItem.tokens) ∧
    c.listIn mark [.GROUP, .BY] = if q.groups = [] then none else
      some ((q.groups.flatMap SelectItem.entries).map fun i => i.expr.tokens) := by
  obtain ⟨s, hs, rfl⟩ := exists_statement h
  have hr := resolves_of_statement hs
  have hlegible := legible_of_statement hs
  constructor
  · rw [hlegible.listIn_select hmark, hr.items]
  · rw [hlegible.listIn_groups hmark, hr.groups, groupExprs]
    by_cases hnil : q.groups = []
    · rw [if_pos hnil, if_pos (List.isEmpty_iff.mpr hnil)]
      rfl
    · rw [if_neg hnil, if_neg fun hempty => hnil (List.isEmpty_iff.mp hempty), Option.map_some,
        List.map_map]
      rfl

end SqlCompose
