import SqlCompose.Model.Record
import SqlCompose.Expr.Print

/-!
# Tables as a statement knows them

A table stands in a statement through a model and under an identifier: its alias when it has one,
and its own name otherwise. It keeps its columns, all of them addressed through that identifier, and
under another alias they are addressed anew.
-/

namespace SqlCompose

/-- The column of a field in a table that is known by an identifier. -/
def Field.columnIn (f : Field) (identifier : String) : Column := ⟨identifier, f.column, f.name⟩

/-- The same column, addressed through another identifier. -/
def Column.rebased (c : Column) (identifier : String) : Column := { c with table := identifier }

/-- A column is addressed anew as it would have been addressed at first. -/
theorem Field.rebased_columnIn (f : Field) (old new : String) :
    (f.columnIn old).rebased new = f.columnIn new := rfl

/-- A table of a model, under an alias or its own name, with its columns in the order of the model's
fields. -/
structure TableRef where
  model : Model
  aliasName : Option String
  columns : List Column
  columns_eq : columns = model.fields.map (·.columnIn (aliasName.getD model.table))
  deriving DecidableEq, Repr

namespace TableRef

/-- The table of a model under an alias, or under its own name without one. -/
def of (m : Model) (aliasName : Option String) : TableRef where
  model := m
  aliasName
  columns := m.fields.map (·.columnIn (aliasName.getD m.table))
  columns_eq := rfl

/-- The table of a model under its own name. -/
def ofModel (m : Model) : TableRef := .of m none

/-- The table's own name. -/
def table (t : TableRef) : String := t.model.table

/-- The name that columns are addressed through. -/
def identifier (t : TableRef) : String := t.aliasName.getD t.table

/-- The column of the named field. -/
def column (t : TableRef) (field : String) : Except Error Column :=
  match t.columns.find? (·.field = field) with
  | some c => .ok c
  | none => .error (.unknownField t.table field)

/-- The same table under another alias, through which its columns are addressed from then on. -/
def aliased (t : TableRef) (aliasName : String) : TableRef where
  model := t.model
  aliasName := some aliasName
  columns := t.columns.map (·.rebased aliasName)
  columns_eq := by
    rw [t.columns_eq, List.map_map]
    exact List.map_congr_left fun f _ => f.rebased_columnIn _ aliasName

/-- A table is told by its model and its alias: these determine the columns. -/
theorem eq_of (t : TableRef) : t = of t.model t.aliasName := by
  obtain ⟨model, aliasName, _, rfl⟩ := t
  rfl

/-- Whatever a table was known by, under another alias it is as if it had been made with it. -/
theorem aliased_eq_of (t : TableRef) (aliasName : String) :
    t.aliased aliasName = of t.model (some aliasName) :=
  (t.aliased aliasName).eq_of

theorem map_columnIn (t : TableRef) : t.columns = t.model.fields.map (·.columnIn t.identifier) :=
  t.columns_eq

theorem length_columns (t : TableRef) : t.columns.length = t.model.fields.length := by
  rw [t.columns_eq, List.length_map]

theorem find?_columns (t : TableRef) (field : String) :
    t.columns.find? (·.field = field) = (t.model.field? field).map (·.columnIn t.identifier) := by
  rw [t.map_columnIn, List.find?_map]
  rfl

/-- A field of the model is found as its column. -/
theorem column_eq_ok {t : TableRef} {name : String} {f : Field}
    (h : t.model.field? name = some f) : t.column name = .ok (f.columnIn t.identifier) := by
  rw [column, find?_columns, h, Option.map_some]

end TableRef

end SqlCompose
