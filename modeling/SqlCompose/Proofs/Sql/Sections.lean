import Mathlib.Data.List.Basic
import Mathlib.Data.List.TakeWhile
import SqlCompose.Proofs.Sql.Lexeme
import SqlCompose.Proofs.Sql.SelectList

/-!
# Sections of statements

A statement is cut into sections at the words that begin its clauses, wherever these stand and
whatever order they come in. No such word stands inside an expression or behind a table, so that
the sections of a statement that was written are its clauses, and joins make one section each.
Nothing is asked of what stands in a section: it may be empty behind its words.

## Main definitions

* `Token.sections`: the sections of a token list.
* `Token.listIn`: the entries of a list that stands behind words.
* `Token.sources`: the tables that are read from, first to last.
* `Token.joined`: the tables that are joined, each with what it is joined on.

## Main results

* `Token.sections_append`: where a clause begins, the sections before it are those there would be
  without it.
* `Statement.sections_tokens`: the sections of a statement are its clauses.
* `Statement.sources_tokens`: the tables that are found in a statement are its source and those of
  its joins.
-/

namespace SqlCompose

namespace Token

/-- Whether no clause begins with the token. -/
def inside : Token → Bool
  | keyword .SELECT | keyword .FROM | keyword .INNER | keyword .WHERE | keyword .GROUP
  | keyword .HAVING | keyword .ORDER | keyword .LIMIT | keyword .OFFSET => false
  | _ => true

/-- The sections of a token list: each word that begins a clause, with what stands behind it up to
the next such word. -/
def sections : List Token → List (List Token)
  | [] => []
  | t :: ts => if t.inside then sections ts else (t :: ts.takeWhile inside) :: sections ts

/-- Whether a token list is empty or begins with a clause. -/
def Opens (ts : List Token) : Prop := ∀ t ∈ ts.head?, t.inside = false

theorem opens_nil : Opens [] := fun _ ht => nomatch ht

theorem opens_keyword {k : Keyword} (h : (keyword k).inside = false) (ts : List Token) :
    Opens (keyword k :: ts) := fun t ht => by
  cases ht
  exact h

theorem Opens.append {ts us : List Token} (hts : Opens ts) (hus : Opens us) : Opens (ts ++ us) := by
  cases ts with
  | nil => exact hus
  | cons t ts => exact hts

theorem takeWhile_inside_append (ts : List Token) {rest : List Token} (h : Opens rest) :
    (ts ++ rest).takeWhile inside = ts.takeWhile inside := by
  induction ts with
  | nil =>
    cases rest with
    | nil => rfl
    | cons t rest => exact List.takeWhile_cons_of_neg (Bool.eq_false_iff.mp (h t rfl))
  | cons t ts ih =>
    rw [List.cons_append, List.takeWhile_cons, List.takeWhile_cons, ih]

/-- What stands before a clause is cut as it is without the clause. -/
theorem sections_append (ts : List Token) {rest : List Token} (h : Opens rest) :
    sections (ts ++ rest) = sections ts ++ sections rest := by
  induction ts with
  | nil => rfl
  | cons t ts ih =>
    rw [List.cons_append, sections, sections, ih, takeWhile_inside_append ts h]
    split <;> rfl

/-- What stands before the first clause is in no section. -/
theorem sections_append_of_inside {ts us : List Token} (h : ts.all inside = true) :
    sections (ts ++ us) = sections us := by
  induction ts with
  | nil => rfl
  | cons t ts ih =>
    rw [List.all_cons, Bool.and_eq_true] at h
    rw [List.cons_append, sections, if_pos h.1, ih h.2]

/-- Without a word that begins a clause there is no section. -/
theorem sections_of_inside {ts : List Token} (h : ts.all inside = true) : sections ts = [] := by
  rw [← List.append_nil ts, sections_append_of_inside h, sections]

/-- A word that begins a clause makes one section with what stands behind it. -/
theorem sections_cons {t : Token} {ts : List Token} (ht : t.inside = false)
    (h : ts.all inside = true) : sections (t :: ts) = [t :: ts] := by
  have htake : ts.takeWhile inside = ts :=
    List.takeWhile_eq_self_iff.mpr fun u hu => List.all_eq_true.mp h u hu
  rw [sections, if_neg (Bool.eq_false_iff.mp ht), sections_of_inside h, htake]

/-- A word that begins a clause begins one where it is seen. -/
theorem inside_visible {t u : Token} (h : u ∈ t.visible) : u.inside = t.inside := by
  cases t with
  | nothing => cases h
  | number n =>
    cases n with
    | ofNat n => exact congrArg inside (List.mem_singleton.mp h)
    | negSucc n =>
      have hu : u = .sign .minus ∨ u = .number (n + 1) := by simpa [visible] using h
      rcases hu with rfl | rfl <;> rfl
  | _ => exact congrArg inside (List.mem_singleton.mp h)

theorem visible_of_inside_eq_false {t : Token} (h : t.inside = false) : t.visible = [t] := by
  cases t with
  | nothing | number n => cases h
  | _ => rfl

theorem takeWhile_inside_visible (ts : List Token) :
    (ts.flatMap visible).takeWhile inside = (ts.takeWhile inside).flatMap visible := by
  induction ts with
  | nil => rfl
  | cons t ts ih =>
    cases ht : t.inside with
    | true =>
      rw [List.takeWhile_cons_of_pos ht, List.flatMap_cons, List.flatMap_cons, ← ih]
      exact List.takeWhile_append_of_pos fun u hu => (inside_visible hu).trans ht
    | false =>
      have hseen := visible_of_inside_eq_false ht
      rw [List.takeWhile_cons_of_neg (Bool.eq_false_iff.mp ht), List.flatMap_cons, hseen]
      exact List.takeWhile_cons_of_neg (Bool.eq_false_iff.mp ht)

/-- What is seen of a token list has the sections of the list, as they are seen. -/
theorem sections_visible (ts : List Token) :
    sections (ts.flatMap visible) = (sections ts).map (·.flatMap visible) := by
  induction ts with
  | nil => rfl
  | cons t ts ih =>
    rw [List.flatMap_cons]
    cases ht : t.inside with
    | true =>
      have hall : t.visible.all inside = true :=
        List.all_eq_true.mpr fun u hu => (inside_visible hu).trans ht
      rw [sections_append_of_inside hall, ih, sections, if_pos ht]
    | false =>
      have hseen := visible_of_inside_eq_false ht
      rw [hseen, List.singleton_append, sections, sections, if_neg (Bool.eq_false_iff.mp ht),
        if_neg (Bool.eq_false_iff.mp ht), takeWhile_inside_visible, ih, List.map_cons,
        List.flatMap_cons, hseen]
      rfl

/-- The entries between the commas outside all parentheses; without a token there is none. -/
def entries : List Token → List (List Token)
  | [] => []
  | t :: ts => entriesFrom 0 (t :: ts)

/-- What stands behind words at the front of a token list. -/
def behind : List Keyword → List Token → Option (List Token)
  | [], ts => some ts
  | word :: words, keyword k :: ts => if k = word then behind words ts else none
  | _, _ => none

/-- The entries of the list that stands behind words at the front of a section. -/
def listIn (words : List Keyword) (ts : List Token) : Option (List (List Token)) :=
  (sections ts).findSome? fun run => (behind words run).map entries

/-- The table that a section reads from, if it is a source or a join. -/
def sourceIn : List Token → Option SourceClause
  | keyword .FROM :: name table :: keyword .AS :: name aliasName :: _
  | keyword .INNER :: keyword .JOIN :: name table :: keyword .AS :: name aliasName :: _ =>
    some ⟨table, some aliasName⟩
  | keyword .FROM :: name table :: _ | keyword .INNER :: keyword .JOIN :: name table :: _ =>
    some ⟨table, none⟩
  | _ => none

/-- The tables that are read from, first to last. -/
def sources (ts : List Token) : List SourceClause := (sections ts).filterMap sourceIn

/-- The table that a section joins, if it is a join, with the tokens of the condition. -/
def joinIn : List Token → Option (SourceClause × List Token)
  | keyword .INNER :: keyword .JOIN :: name table :: keyword .AS :: name aliasName ::
      keyword .ON :: on => some (⟨table, some aliasName⟩, on)
  | keyword .INNER :: keyword .JOIN :: name table :: keyword .ON :: on => some (⟨table, none⟩, on)
  | _ => none

/-- The tables that are joined, first to last, each with the tokens of the condition. -/
def joined (ts : List Token) : List (SourceClause × List Token) := (sections ts).filterMap joinIn

/-- Whether a section is behind the joins of a statement: no select list, source or join. -/
def isLater : List Token → Bool
  | keyword .SELECT :: _ | keyword .FROM :: _ | keyword .INNER :: _ => false
  | _ => true

theorem sourceIn_of_isLater {run : List Token} (h : isLater run = true) : sourceIn run = none := by
  unfold sourceIn
  split <;> first | rfl | cases h

theorem joinIn_of_isLater {run : List Token} (h : isLater run = true) : joinIn run = none := by
  unfold joinIn
  split <;> first | rfl | cases h

/-! ### No clause begins inside an expression -/

theorem all_inside_grouped {ts : List Token} (h : ts.all inside = true) (group : Bool) :
    (grouped group ts).all inside = true := by
  cases group with
  | false => exact h
  | true => simpa [grouped, inside] using h

theorem all_inside_commaSeparated {items : List (List Token)}
    (h : ∀ ts ∈ items, ts.all inside = true) : (commaSeparated items).all inside = true := by
  fun_induction commaSeparated items with
  | case1 => rfl
  | case2 item => exact h item List.mem_cons_self
  | case3 item items hne ih =>
    rw [List.all_append, List.all_cons, h item List.mem_cons_self,
      ih fun ts hts => h ts (List.mem_cons_of_mem _ hts)]
    rfl

end Token

namespace Expr

open Token

theorem all_inside_op (op : Op) : op.tokens.all inside = true := by
  cases op <;> rfl

theorem all_inside_polarity (positive : Bool) : (polarity positive).all inside = true := by
  cases positive <;> rfl

mutual

/-- No clause begins inside an expression. -/
theorem all_inside_tokens : (e : Expr) → e.tokens.all inside = true
  | column _ | literal _ => rfl
  | not e => all_inside_grouped (all_inside_tokens e) _
  | binary left op right => by
    simp only [tokens, List.all_append, all_inside_grouped (all_inside_tokens left),
      all_inside_op, all_inside_grouped (all_inside_tokens right), Bool.and_self]
  | nullTest e positive => by
    simp only [tokens, List.all_append, List.all_cons, List.all_nil,
      all_inside_grouped (all_inside_tokens e), all_inside_polarity]
    rfl
  | inList e candidates positive => by
    have hcandidates := all_inside_grouped
      (all_inside_commaSeparated (all_inside_tokensEach candidates)) true
    simp only [tokens, List.all_append, List.all_cons, hcandidates,
      all_inside_grouped (all_inside_tokens e), all_inside_polarity]
    rfl
  | between e low high positive => by
    simp only [tokens, List.all_append, List.all_cons, all_inside_polarity,
      all_inside_grouped (all_inside_tokens e), all_inside_grouped (all_inside_tokens low),
      all_inside_grouped (all_inside_tokens high)]
    rfl
  | parens e => all_inside_grouped (all_inside_tokens e) true

theorem all_inside_tokensEach : (es : List Expr) → ∀ ts ∈ tokensEach es, ts.all inside = true
  | [], _, h => nomatch h
  | e :: es, ts, h => by
    rcases List.mem_cons.mp h with rfl | h
    · exact all_inside_tokens e
    · exact all_inside_tokensEach es ts h

end

end Expr

namespace Statement

open Token

theorem all_inside_aliasTokens (a : Option String) : (aliasTokens a).all inside = true := by
  cases a <;> rfl

theorem all_inside_source (c : SourceClause) : c.tokens.all inside = true :=
  all_inside_aliasTokens c.aliasName

theorem all_inside_item (i : OutputItem) : i.tokens.all inside = true := by
  rw [OutputItem.tokens, List.all_append, i.expr.all_inside_tokens, all_inside_aliasTokens,
    Bool.and_self]

theorem all_inside_items (items : List OutputItem) :
    (commaSeparated (items.map OutputItem.tokens)).all inside = true :=
  all_inside_commaSeparated fun ts hts => by
    obtain ⟨i, -, rfl⟩ := List.mem_map.mp hts
    exact all_inside_item i

/-! ### The sections of the clauses -/

/-- The section of a join. -/
theorem sections_join (j : JoinClause) : sections j.tokens = [j.tokens] := by
  have hrest : ((keyword .JOIN :: j.source.tokens) ++ keyword .ON :: j.on.tokens).all inside =
      true := by
    rw [List.all_append, List.all_cons, List.all_cons, all_inside_source, j.on.all_inside_tokens]
    rfl
  exact sections_cons rfl hrest

theorem opens_joins (joins : List JoinClause) : Opens (joins.flatMap JoinClause.tokens) := by
  cases joins with
  | nil => exact opens_nil
  | cons j joins => exact opens_keyword rfl _

theorem sections_joins (joins : List JoinClause) :
    sections (joins.flatMap JoinClause.tokens) = joins.map JoinClause.tokens := by
  induction joins with
  | nil => rfl
  | cons j joins ih =>
    rw [List.flatMap_cons, sections_append _ (opens_joins joins), sections_join, ih]
    rfl

theorem opens_predicate {k : Keyword} (hk : (keyword k).inside = false) (o : Option Expr) :
    Opens (predicateTokens k o) := by
  cases o with
  | none => exact opens_nil
  | some e => exact opens_keyword hk _

theorem sections_predicate {k : Keyword} (hk : (keyword k).inside = false) (o : Option Expr) :
    sections (predicateTokens k o) = o.toList.map fun e => keyword k :: e.tokens := by
  cases o with
  | none => rfl
  | some e => exact sections_cons hk e.all_inside_tokens

theorem opens_groups (groups : Option (List Expr)) : Opens (groupTokens groups) := by
  cases groups with
  | none => exact opens_nil
  | some es => exact opens_keyword rfl _

theorem sections_groups (groups : Option (List Expr)) :
    sections (groupTokens groups) = groups.toList.map fun es =>
      keyword .GROUP :: keyword .BY :: commaSeparated (es.map Expr.tokens) := by
  cases groups with
  | none => rfl
  | some es =>
    refine sections_cons rfl (all_inside_commaSeparated fun ts hts => ?_)
    obtain ⟨e, -, rfl⟩ := List.mem_map.mp hts
    exact e.all_inside_tokens

theorem opens_orders (orders : List OrderClause) : Opens (orderTokens orders) := by
  cases orders with
  | nil => exact opens_nil
  | cons o os => exact opens_keyword rfl _

/-- Whether the words behind the entries of an order list begin no clause. -/
def Ordered (orders : List OrderClause) : Prop :=
  ∀ o ∈ orders, (keyword o.keyword).inside = true

theorem sections_orders {orders : List OrderClause} (h : Ordered orders) :
    sections (orderTokens orders) = if orders.isEmpty then [] else [orderTokens orders] := by
  cases orders with
  | nil => rfl
  | cons o os =>
    refine sections_cons rfl (all_inside_commaSeparated fun ts hts => ?_)
    obtain ⟨o', ho', rfl⟩ := List.mem_map.mp hts
    rw [OrderClause.tokens, List.all_append, o'.expr.all_inside_tokens, List.all_cons, h o' ho']
    rfl

theorem opens_window (d : Dialect) (limit offset : Option UInt64) :
    Opens (d.windowTokens limit offset) := by
  cases limit with
  | none =>
    cases offset with
    | none => exact opens_nil
    | some m => cases d <;> exact opens_keyword rfl _
  | some n => cases offset <;> exact opens_keyword rfl _

/-- The sections of a statement behind its joins. -/
def laterSections (s : Statement) (d : Dialect) : List (List Token) :=
  s.filter.toList.map (fun e => keyword .WHERE :: e.tokens) ++
  s.groups.toList.map (fun es =>
    keyword .GROUP :: keyword .BY :: commaSeparated (es.map Expr.tokens)) ++
  s.groupFilter.toList.map (fun e => keyword .HAVING :: e.tokens) ++
  (if s.orders.isEmpty then [] else [orderTokens s.orders]) ++
  sections (d.windowTokens s.limit s.offset)

/-- The sections of a statement are its clauses, in their order. -/
theorem sections_tokens {s : Statement} (h : Ordered s.orders) (d : Dialect) :
    sections (s.tokens d) = (keyword .SELECT :: commaSeparated (s.items.map OutputItem.tokens)) ::
      (keyword .FROM :: s.source.tokens) ::
        (s.joins.map JoinClause.tokens ++ s.laterSections d) := by
  have hitems : sections (keyword .SELECT :: commaSeparated (s.items.map OutputItem.tokens)) =
      [keyword .SELECT :: commaSeparated (s.items.map OutputItem.tokens)] :=
    sections_cons rfl (all_inside_items s.items)
  have hsource : sections (keyword .FROM :: s.source.tokens) = [keyword .FROM :: s.source.tokens] :=
    sections_cons rfl (all_inside_source s.source)
  have hwindow := opens_window d s.limit s.offset
  have horders := (opens_orders s.orders).append hwindow
  have hgroupFilter := (opens_predicate (k := .HAVING) rfl s.groupFilter).append horders
  have hgroups := (opens_groups s.groups).append hgroupFilter
  have hfilter := (opens_predicate (k := .WHERE) rfl s.filter).append hgroups
  have hjoins := (opens_joins s.joins).append hfilter
  have hfrom := (opens_keyword (k := .FROM) rfl s.source.tokens).append hjoins
  simp only [tokens, laterSections, List.append_assoc]
  rw [sections_append _ hfrom, sections_append _ hjoins, sections_append _ hfilter,
    sections_append _ hgroups, sections_append _ hgroupFilter, sections_append _ horders,
    sections_append _ hwindow, hitems, hsource, sections_joins, sections_predicate rfl,
    sections_groups, sections_predicate rfl, sections_orders h]
  rfl

/-- The sections behind the joins begin with words that no select list, source or join has. -/
theorem exists_keyword_of_mem_laterSections {s : Statement} {d : Dialect} :
    ∀ run ∈ s.laterSections d, ∃ k ts, run = keyword k :: ts ∧ isLater run = true := by
  simp only [laterSections, List.forall_mem_append]
  refine ⟨⟨⟨⟨?_, ?_⟩, ?_⟩, ?_⟩, ?_⟩
  · cases s.filter <;> simp [isLater]
  · cases s.groups <;> simp [isLater]
  · cases s.groupFilter <;> simp [isLater]
  · cases s.orders <;> simp [orderTokens, isLater]
  · cases d <;> cases s.limit <;> cases s.offset <;>
      simp [Dialect.windowTokens, sections, inside, isLater]

/-- What is found in select lists, sources and joins only is found in front of the later
sections. -/
theorem filterMap_sections {α : Type} {s : Statement} (h : Ordered s.orders) (d : Dialect)
    {f : List Token → Option α}
    (hf : ∀ k ts, isLater (keyword k :: ts) = true → f (keyword k :: ts) = none) :
    (sections (s.tokens d)).filterMap f =
      ((keyword .SELECT :: commaSeparated (s.items.map OutputItem.tokens)) ::
        (keyword .FROM :: s.source.tokens) :: s.joins.map JoinClause.tokens).filterMap f := by
  have hlater : (s.laterSections d).filterMap f = [] := by
    refine List.filterMap_eq_nil_iff.mpr fun run hrun => ?_
    obtain ⟨k, ts, rfl, hk⟩ := exists_keyword_of_mem_laterSections run hrun
    exact hf k ts hk
  rw [sections_tokens h, ← List.cons_append, ← List.cons_append, List.filterMap_append, hlater,
    List.append_nil]

/-! ### The tables of a statement -/

theorem sourceIn_from (c : SourceClause) : sourceIn (keyword .FROM :: c.tokens) = some c := by
  obtain ⟨table, _ | aliasName⟩ := c <;> rfl

theorem sourceIn_join (j : JoinClause) : sourceIn j.tokens = some j.source := by
  obtain ⟨⟨table, _ | aliasName⟩, on⟩ := j <;> rfl

theorem joinIn_join (j : JoinClause) : joinIn j.tokens = some (j.source, j.on.tokens) := by
  obtain ⟨⟨table, _ | aliasName⟩, on⟩ := j <;> rfl

/-- The tables that are found in a statement are its source and those of its joins. -/
theorem sources_tokens {s : Statement} (h : Ordered s.orders) (d : Dialect) :
    sources (s.tokens d) = s.source :: s.joins.map JoinClause.source := by
  have hjoins : (s.joins.map JoinClause.tokens).filterMap sourceIn =
      s.joins.map JoinClause.source := by
    rw [List.filterMap_map, ← List.filterMap_eq_map]
    exact List.filterMap_congr fun j _ => sourceIn_join j
  rw [sources, filterMap_sections h d fun k ts => sourceIn_of_isLater,
    List.filterMap_cons_none rfl, List.filterMap_cons_some (sourceIn_from s.source), hjoins]

end Statement

end SqlCompose
