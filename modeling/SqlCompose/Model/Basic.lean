import SqlCompose.Value.Scalar
import SqlCompose.Text.Naming
import SqlCompose.Text.Quoted

/-!
# Models

A model says how records of one shape map onto a table: the table's name and the fields in
declaration order, each with its type and the column that holds it. Field names are distinct, and
every field has a type whose scalars can be written as values.

Two models are the same when everything about them is, their own names included: a table may be
read through several models.
-/

namespace SqlCompose

/-- A field of a model and the column it is read from. -/
structure Field where
  name : String
  type : ScalarType
  column : String
  isStorable_type : type.isStorable = true := by rfl
  deriving DecidableEq, Repr

/-- A field whose column is named from the field by a rule. -/
def Field.named (rule : String → String) (name : String) (type : ScalarType)
    (h : type.isStorable = true := by rfl) : Field :=
  ⟨name, type, rule name, h⟩

/-- The shape of records and the table behind them. -/
structure Model where
  name : String
  table : String
  fields : List Field
  nodup_names : (fields.map Field.name).Nodup := by decide
  deriving DecidableEq, Repr

namespace Model

/-- The field names in declaration order. -/
def fieldNames (m : Model) : List String := m.fields.map Field.name

/-- The field of a name. -/
def field? (m : Model) (name : String) : Option Field :=
  m.fields.find? (·.name = name)

/-- Whether the model has a field of the name. -/
def hasField (m : Model) (name : String) : Bool := m.fieldNames.contains name

theorem isSome_field?_eq (m : Model) (name : String) :
    (m.field? name).isSome = m.hasField name := by
  rw [field?, hasField, fieldNames, Bool.eq_iff_iff, List.find?_isSome, List.contains_iff_mem,
    List.mem_map]
  simp

/-- The description of a model: its table and its fields. -/
def describe (m : Model) : String :=
  "ModelInfo \x7b table: " ++ Quoted.quote m.table ++ ", fields: " ++
    Quoted.bracketed (m.fieldNames.map Quoted.quote) ++ " \x7d"

end Model

end SqlCompose
