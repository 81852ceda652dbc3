import SqlCompose.Proofs.Row.Placement

/-!
# The fields of records and the cells of rows

A record has a value under the names of its model's fields, and under no other. In a record that
was read from the cells of a table, the value of a field is what the field's type made of the cell
in the field's column, written back as a value.

## Main definitions

* `Model.cell?`: the cell of a named field in a row of all columns.

## Main results

* `Record.isSome_valueOf`, `Record.exists_of_valueOf`: the names under which a record has a value,
  and what it is.
* `Fills.exists_valueOf`: the value of a field that was read from a cell.
-/

namespace SqlCompose

/-- The cell of the named field, in a row that has the columns of the model and no other. -/
def Model.cell? (m : Model) (name : String) (row : List Value) : Option Value :=
  ((m.fields.zip row).find? (·.1.name = name)).map (·.2)

/-- In a list of pairs, the field of a name is found as it is among the fields alone. -/
private theorem map_fst_find?_zip {α : Type} {fields : List Field} {xs : List α}
    (h : fields.length ≤ xs.length) (name : String) :
    ((fields.zip xs).find? (·.1.name = name)).map Prod.fst = fields.find? (·.name = name) := by
  conv_rhs => rw [← List.map_fst_zip h, List.find?_map]
  rfl

namespace Record

theorem length_values (r : Record) : r.values.length = r.model.fields.length := by
  have hlength {fields : List Field} {values : List Scalar}
      (h : Model.admits fields values = true) : values.length = fields.length := by
    fun_induction Model.admits fields values with
    | case1 => rfl
    | case2 f fields s values ih => exact congrArg Nat.succ (ih (Bool.and_eq_true_iff.mp h).2)
    | case3 => cases h
  exact hlength r.admits_values

/-- A record has a value under the names of its model's fields, and under no other. -/
theorem isSome_valueOf (r : Record) (name : String) :
    (r.valueOf name).isSome = r.model.hasField name := by
  rw [← Model.isSome_field?_eq, Model.field?,
    ← map_fst_find?_zip (Nat.le_of_eq r.length_values.symm) name, valueOf, Option.isSome_map,
    Option.isSome_map]

private theorem admits_of_mem_zip {fields : List Field} {values : List Scalar}
    (h : Model.admits fields values = true) {f : Field} {s : Scalar}
    (hmem : (f, s) ∈ fields.zip values) : f.type.admits s = true := by
  fun_induction Model.admits fields values with
  | case1 => cases hmem
  | case2 g fields u values ih =>
    obtain ⟨hu, hvalues⟩ := Bool.and_eq_true_iff.mp h
    obtain hfirst | hrest := List.mem_cons.mp hmem
    · cases hfirst
      exact hu
    · exact ih hvalues hrest
  | case3 => cases h

/-- What a record has under a name is a scalar of the field of that name, written as a value. -/
theorem exists_of_valueOf {r : Record} {name : String} {v : Value} (h : r.valueOf name = some v) :
    ∃ f s, r.model.field? name = some f ∧ f.type.admits s = true ∧ v = s.toValue := by
  obtain ⟨⟨f, s⟩, hfound, hv⟩ := Option.map_eq_some_iff.mp h
  refine ⟨f, s, ?_, admits_of_mem_zip r.admits_values (List.mem_of_find?_eq_some hfound), hv.symm⟩
  rw [Model.field?, ← map_fst_find?_zip (Nat.le_of_eq r.length_values.symm) name, hfound]
  rfl

/-- A field that is read from a cell holds what its type makes of the cell. -/
private theorem exists_find?_of_readCells {fields : List Field} {cells : List Value}
    {ss : List Scalar} (h : readCells fields cells = .ok ss) {name : String} {f : Field} {v : Value}
    (hcell : (fields.zip cells).find? (·.1.name = name) = some (f, v)) :
    ∃ s, f.type.convert v = .ok s ∧ (fields.zip ss).find? (·.1.name = name) = some (f, s) := by
  induction fields generalizing cells ss with
  | nil => cases hcell
  | cons g fields ih =>
    cases cells with
    | nil => cases hcell
    | cons w cells =>
      simp only [readCells, bind_eq_ok_iff] at h
      obtain ⟨u, hu, us, hus, h⟩ := h
      cases h
      rw [List.zip_cons_cons, List.find?_cons] at hcell ⊢
      by_cases hg : g.name = name
      · simp only [hg, decide_true, Option.some.injEq, Prod.mk.injEq] at hcell ⊢
        obtain ⟨rfl, rfl⟩ := hcell
        exact ⟨u, hu, rfl, rfl⟩
      · simp only [hg, decide_false] at hcell ⊢
        exact ih hus hcell

end Record

/-- The field of a record that fills with cells is the cell in the field's column as the field's
type takes it and writes it back. -/
theorem Fills.exists_valueOf {t : TableRef} {cells : List Value} {r : Record} (h : Fills t cells r)
    {name : String} {v : Value} (hcell : t.model.cell? name cells = some v) :
    ∃ f s, t.model.field? name = some f ∧ f.type.convert v = .ok s ∧
      r.valueOf name = some s.toValue := by
  have hread := (Record.ofCells_eq_ok_iff.mp
    ((Record.assignEach_columns t h.length_eq).symm.trans h.assign_eq)).2
  obtain ⟨⟨f, w⟩, hfound, hw⟩ := Option.map_eq_some_iff.mp hcell
  cases hw
  obtain ⟨s, hs, hvalue⟩ := Record.exists_find?_of_readCells hread hfound
  refine ⟨f, s, ?_, hs, ?_⟩
  · have hwidth : cells.length = t.model.fields.length := by
      rw [h.length_eq, TableRef.length_columns]
    rw [Model.field?, ← map_fst_find?_zip (Nat.le_of_eq hwidth.symm) name, hfound]
    rfl
  · rw [Record.valueOf, h.model_eq, hvalue]
    rfl

end SqlCompose
