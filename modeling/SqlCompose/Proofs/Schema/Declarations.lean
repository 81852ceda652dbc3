import Mathlib.Data.List.Induction
import SqlCompose.Proofs.Query.Clauses
import SqlCompose.Schema.Table

/-!
# Tables by declarations

A table comes about by declarations, one after the other, each of which gives a relation to a name.
What the table has under a name afterwards is told by the last declaration of the name alone: it
puts its own relation in the place of those before it, and the declarations of other names leave it
where it is.

## Main definitions

* `Table.Declaration`, `Table.declareAll`: declarations, and the table after a run of them.
* `Table.lastOf`: the last declaration of a name.
* `Table.Declaration.Gives`: the relation that a declaration stands for.

## Main results

* `Table.relation_declare`: one declaration changes its own name, and no other.
* `Table.relation_declareAll`: after a run of declarations, a name has the relation of its last one.
* `Table.loader_declareAll`: names that were declared have a loader, in the order of the names.
-/

namespace SqlCompose.Table

/-- The declaration of a relation: its name, where it leads, and the two fields. -/
structure Declaration where
  name : String
  target : Model
  targetField : String
  sourceField : String

/-- The relation is the one that the declaration stands for on a table of the model. -/
structure Declaration.Gives (m : Model) (d : Declaration) (r : Relation) : Prop where
  name_eq : r.name = d.name
  source_eq : r.source = m
  target_eq : r.target = d.target
  targetField_eq : r.targetField = d.targetField
  sourceField_eq : r.sourceField = d.sourceField

/-- The table of a model after declarations, of which every one has to succeed. -/
def declareAll (m : Model) (ds : List Declaration) : Except Error Table :=
  ds.foldlM (fun t d => t.declare d.name d.target d.targetField d.sourceField) (ofModel m)

/-- The last declaration of a name. -/
def lastOf (name : String) (ds : List Declaration) : Option Declaration :=
  ds.reverse.find? (·.name = name)

/-! ### One declaration -/

/-- A declaration that succeeds puts its relation in front, in the place of any of its name. -/
theorem exists_of_declare {t t' : Table} {d : Declaration}
    (h : t.declare d.name d.target d.targetField d.sourceField = .ok t') :
    ∃ r, d.Gives t.model r ∧ t'.model = t.model ∧
      t'.relations = r :: t.relations.filter (·.name ≠ d.name) := by
  rw [declare] at h
  split at h
  · split at h
    · cases h
      exact ⟨_, ⟨rfl, rfl, rfl, rfl, rfl⟩, rfl, rfl⟩
    · cases h
  · cases h

/-- Relations of another name are found as if those of the name were not there. -/
private theorem find?_filter_of_ne {name other : String} (h : name ≠ other) (rs : List Relation) :
    (rs.filter (·.name ≠ name)).find? (·.name = other) = rs.find? (·.name = other) := by
  rw [List.find?_filter]
  refine congrArg (rs.find? ·) (funext fun r => ?_)
  by_cases hr : r.name = other
  · simp [hr, Ne.symm h]
  · simp [hr]

/-- A declaration gives its relation to its name, and leaves all other names alone. -/
theorem relation_declare {t t' : Table} {d : Declaration}
    (h : t.declare d.name d.target d.targetField d.sourceField = .ok t') :
    (∃ r, t'.relation d.name = .ok r ∧ d.Gives t.model r) ∧
      ∀ other, d.name ≠ other → t'.relation other = t.relation other := by
  obtain ⟨r, hr, hmodel, hrelations⟩ := exists_of_declare h
  refine ⟨⟨r, ?_, hr⟩, fun other hother => ?_⟩
  · have hfirst : decide (r.name = d.name) = true := decide_eq_true hr.name_eq
    simp only [relation, hrelations, List.find?_cons, hfirst]
  · have hskip : decide (r.name = other) = false := decide_eq_false (hr.name_eq ▸ hother)
    simp only [relation, hrelations, List.find?_cons, hskip, find?_filter_of_ne hother,
      Table.name, hmodel]

/-! ### Runs of declarations -/

theorem lastOf_concat (name : String) (ds : List Declaration) (d : Declaration) :
    lastOf name (ds ++ [d]) = if d.name = name then some d else lastOf name ds := by
  rw [lastOf, List.reverse_append, List.reverse_singleton, List.singleton_append, List.find?_cons]
  by_cases h : d.name = name <;> simp [h, lastOf]

/-- After a run of declarations, a name has the relation of its last declaration, and none if it
was not declared. -/
theorem relation_declareAll {m : Model} {ds : List Declaration} {t : Table}
    (h : declareAll m ds = .ok t) : t.model = m ∧ ∀ name,
      match lastOf name ds with
      | some d => ∃ r, t.relation name = .ok r ∧ d.Gives m r
      | none => t.relation name = .error (.unknownRelation m.table name) := by
  induction ds using List.reverseRecOn generalizing t with
  | nil =>
    cases h
    exact ⟨rfl, fun name => rfl⟩
  | append_singleton ds d ih =>
    rw [declareAll, List.foldlM_append] at h
    obtain ⟨before, hbefore, hlast⟩ := bind_eq_ok_iff.mp h
    rw [List.foldlM_cons] at hlast
    obtain ⟨after, hdeclare, hafter⟩ := bind_eq_ok_iff.mp hlast
    cases hafter
    obtain ⟨hmodel, hnames⟩ := ih hbefore
    obtain ⟨hown, hothers⟩ := relation_declare hdeclare
    obtain ⟨-, -, hmodel', -⟩ := exists_of_declare hdeclare
    refine ⟨hmodel'.trans hmodel, fun name => ?_⟩
    rw [lastOf_concat]
    by_cases hname : d.name = name
    · subst hname
      rw [if_pos rfl, ← hmodel]
      exact hown
    · rw [if_neg hname, hothers name hname]
      exact hnames name

/-- The loader of declared names, in their order, has for each of them the relation of its last
declaration. -/
theorem loader_declareAll {m : Model} {ds : List Declaration} {t : Table}
    (h : declareAll m ds = .ok t) {names : List String}
    (hnames : ∀ name ∈ names, ∃ d ∈ ds, d.name = name) :
    ∃ rs, names.mapM t.relation = .ok rs ∧
      List.Forall₂ (fun name r => ∃ d, lastOf name ds = some d ∧ d.Gives m r) names rs := by
  induction names with
  | nil => exact ⟨[], rfl, .nil⟩
  | cons name names ih =>
    obtain ⟨hname, hnames⟩ := List.forall_mem_cons.mp hnames
    obtain ⟨rs, hrs, hgiven⟩ := ih hnames
    have hlast : (lastOf name ds).isSome = true := by
      obtain ⟨d, hd, hdname⟩ := hname
      exact List.find?_isSome.mpr ⟨d, List.mem_reverse.mpr hd, decide_eq_true hdname⟩
    obtain ⟨d, hd⟩ := Option.isSome_iff_exists.mp hlast
    have hfound := (relation_declareAll h).2 name
    rw [hd] at hfound
    obtain ⟨r, hr, hgives⟩ := hfound
    exact ⟨r :: rs, mapM_cons_eq_ok_iff.mpr ⟨r, rs, hr, hrs, rfl⟩, .cons ⟨d, hd, hgives⟩ hgiven⟩

end SqlCompose.Table
