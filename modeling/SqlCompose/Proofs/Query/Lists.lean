import SqlCompose.Proofs.Query.Outcome
import SqlCompose.Proofs.Query.Texts

/-!
# Lists without entries

A query with no item to select is refused, and one with no item to group by has no group clause.
Both are told from the items, while an item may stand for the columns of tables: a table without
fields has none, nor has a tree of joins between such tables. A list of such items only is written
as a list without an entry, which no database takes.

## Main definitions

* `SelectItem.Columnless`: the items that stand for no column.
* `Query.ListsFilled`: the queries that have no statement with an empty list.

## Main results

* `Query.exists_listIn_select_iff`, `Query.listIn_groups_ne_nil_iff`: when the lists that are found
  in the text of a query have entries.
* `Query.listsFilled_iff`: for which queries no list is empty.
-/

namespace SqlCompose

/-! ### Items without columns -/

/-- Whether an item of a select or group list stands for no column: it is all columns of a table
without fields, or of a tree of joins between such tables only. -/
def SelectItem.Columnless : SelectItem → Prop
  | expr _ | aliased _ _ => False
  | columns t => t.model.fields = []
  | join j => ∀ t ∈ j.tables, t.model.fields = []

theorem TableRef.outputs_eq_nil_iff {t : TableRef} : t.outputs = [] ↔ t.model.fields = [] := by
  rw [outputs, map_columnIn, List.map_eq_nil_iff, List.map_eq_nil_iff]

/-- An item is written as nothing exactly if it stands for no column. -/
theorem SelectItem.entries_eq_nil_iff {item : SelectItem} :
    item.entries = [] ↔ item.Columnless := by
  cases item with
  | expr e | aliased e aliasName => exact iff_of_false (List.cons_ne_nil _ _) id
  | columns t => exact TableRef.outputs_eq_nil_iff
  | join j =>
    have htables : j.outputs = [] ↔ ∀ t ∈ j.tables, t.outputs = [] := by
      rw [j.outputs_eq_tables, List.flatMap_eq_nil_iff]
    exact htables.trans (forall₂_congr fun _ _ => TableRef.outputs_eq_nil_iff)

theorem SelectItem.flatMap_entries_eq_nil_iff {items : List SelectItem} :
    items.flatMap entries = [] ↔ ∀ item ∈ items, item.Columnless := by
  rw [List.flatMap_eq_nil_iff]
  exact forall₂_congr fun _ _ => entries_eq_nil_iff

theorem SelectItem.flatMap_entries_ne_nil_iff {items : List SelectItem} :
    items.flatMap entries ≠ [] ↔ ∃ item ∈ items, ¬ item.Columnless := by
  rw [ne_eq, flatMap_entries_eq_nil_iff]
  simp only [not_forall, exists_prop]

/-! ### The lists of a compiled query -/

namespace Query

section Read

variable {q : Query} {ctx : Context} {mark : Char} (hmark : ctx.quoting.mark? = some mark)
variable {c : Compiled} (h : q.compile ctx = .ok c)

include hmark h

/-- A select list has an entry exactly if some item to select stands for a column. -/
theorem exists_listIn_select_iff :
    (∃ entry entries, c.listIn mark [.SELECT] = some (entry :: entries)) ↔
      ∃ item ∈ q.selected, ¬ item.Columnless := by
  rw [(listIn_compile hmark h).1, ← SelectItem.flatMap_entries_ne_nil_iff]
  cases q.selected.flatMap SelectItem.entries with
  | nil => simp
  | cons i is => simp

/-- A group list has an entry, or is not there, exactly if there is no item to group by or some such
item stands for a column. -/
theorem listIn_groups_ne_nil_iff : c.listIn mark [.GROUP, .BY] ≠ some [] ↔
    q.groups = [] ∨ ∃ item ∈ q.groups, ¬ item.Columnless := by
  rw [(listIn_compile hmark h).2, ← SelectItem.flatMap_entries_ne_nil_iff]
  by_cases hnil : q.groups = []
  · simp [hnil]
  · simp [hnil]

end Read

/-- No statement of the query has an empty list: its select list has an entry, its group list has
one if there is one, and a query is refused if its select list stands for no column. -/
structure ListsFilled (q : Query) : Prop where
  select : ∀ ctx mark c, ctx.quoting.mark? = some mark → q.compile ctx = .ok c →
    ∃ entry entries, c.listIn mark [.SELECT] = some (entry :: entries)
  groups : ∀ ctx mark c, ctx.quoting.mark? = some mark → q.compile ctx = .ok c →
    c.listIn mark [.GROUP, .BY] ≠ some []
  refused : (∀ item ∈ q.selected, item.Columnless) → ∀ ctx, q.compile ctx = .error .emptySelect

/-- No statement of a query has an empty list exactly if some item to select stands for a column,
or the query is refused anyway, and if the items to group by, where there are any and the query can
be written, do not all stand for none. -/
theorem listsFilled_iff (q : Query) : q.ListsFilled ↔
    (q.violations.head? = some .emptySelect ∨ ∃ item ∈ q.selected, ¬ item.Columnless) ∧
    (q.Writable → q.groups = [] ∨ ∃ item ∈ q.groups, ¬ item.Columnless) := by
  have hcompile (ctx : Context) : Reports (q.compile ctx) q.violations :=
    q.reports_statement.map (Statement.render ctx)
  constructor
  · intro h
    constructor
    · by_cases hsome : ∃ item ∈ q.selected, ¬ item.Columnless
      · exact Or.inr hsome
      · have hcolumnless : ∀ item ∈ q.selected, item.Columnless := by simpa using hsome
        exact Or.inl ((hcompile (.ofDialect .sqlite) _).mp (h.refused hcolumnless _))
    · intro hwritable
      obtain ⟨c, hc⟩ := (hcompile (.ofDialect .sqlite)).exists_ok_iff.mpr
        (violations_eq_nil_iff.mpr hwritable)
      exact (listIn_groups_ne_nil_iff rfl hc).mp (h.groups _ '"' c rfl hc)
  · rintro ⟨hselect, hgroups⟩
    constructor
    case select =>
      intro ctx mark c hmark hc
      have hnone := (hcompile ctx).exists_ok_iff.mp ⟨c, hc⟩
      refine (exists_listIn_select_iff hmark hc).mpr (hselect.resolve_left ?_)
      rw [hnone]
      exact Option.some_ne_none _ ∘ Eq.symm
    case groups =>
      intro ctx mark c hmark hc
      have hnone := (hcompile ctx).exists_ok_iff.mp ⟨c, hc⟩
      exact (listIn_groups_ne_nil_iff hmark hc).mpr (hgroups (violations_eq_nil_iff.mp hnone))
    case refused =>
      intro hcolumnless ctx
      refine (hcompile ctx _).mpr (hselect.resolve_right ?_)
      rintro ⟨item, hitem, hitem'⟩
      exact hitem' (hcolumnless item hitem)

/-- A table without fields is selected as nothing, and grouping by its columns as nothing. -/
theorem not_listsFilled_columnless :
    let unit : TableRef := .ofModel ⟨"Nothing", "nothing", [], by simp⟩
    let q := ofTable unit
    let grouped := (q.select [.expr (.literal (.integer 1))]).groupBy [.columns unit]
    q.compile (.ofDialect .sqlite) = .ok ⟨"SELECT  FROM \"nothing\"", []⟩ ∧ ¬ q.ListsFilled ∧
      grouped.compile (.ofDialect .sqlite) =
        .ok ⟨"SELECT ? FROM \"nothing\" GROUP BY ", [.integer 1]⟩ ∧ ¬ grouped.ListsFilled := by
  intro unit q grouped
  have htext : Token.textOf (.ofDialect .sqlite) [.keyword .SELECT, .nothing, .keyword .FROM,
      .name "nothing"] = "SELECT  FROM \"nothing\"" := by
    decide
  have hgroupedText : Token.textOf (.ofDialect .sqlite) [.keyword .SELECT, .bound (.integer 1),
      .keyword .FROM, .name "nothing", .keyword .GROUP, .keyword .BY, .nothing] =
      "SELECT ? FROM \"nothing\" GROUP BY " := by
    decide
  have hq : q.compile (.ofDialect .sqlite) = .ok ⟨"SELECT  FROM \"nothing\"", []⟩ :=
    congrArg (fun text => Except.ok (Compiled.mk text [])) htext
  have hgrouped : grouped.compile (.ofDialect .sqlite) =
      .ok ⟨"SELECT ? FROM \"nothing\" GROUP BY ", [.integer 1]⟩ :=
    congrArg (fun text => Except.ok (Compiled.mk text [.integer 1])) hgroupedText
  refine ⟨hq, fun h => ?_, hgrouped, fun h => ?_⟩
  · obtain ⟨entry, entries, hlist⟩ := h.select _ '"' _ rfl hq
    rw [(listIn_compile rfl hq).1] at hlist
    cases hlist
  · exact h.groups _ '"' _ rfl hgrouped (listIn_compile rfl hgrouped).2

end Query

end SqlCompose
