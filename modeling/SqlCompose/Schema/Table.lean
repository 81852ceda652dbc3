import SqlCompose.Query.Basic

/-!
# Tables and their relations

A table is a model with relations declared on it. A relation leads from a field of the table's
model to a field of a target model and has a name; both fields have to exist. Declaring a name
again replaces the relation of that name.

## Main definitions

* `Relation`, `Relation.join`: a relation, and the join it stands for.
* `Table`, `Table.declare`, `Table.relation`: tables, and declaring and finding relations.
* `Table.rel`: the join of a relation, known by its path from the table.
* `Table.query`, `Table.queryAs`: queries on the table.
-/

namespace SqlCompose

/-- A relation of the name from the source field to the target field. -/
structure Relation where
  name : String
  source : Model
  target : Model
  targetField : String
  sourceField : String
  hasField_source : source.hasField sourceField = true
  hasField_target : target.hasField targetField = true
  deriving DecidableEq, Repr

namespace Relation

/-- The join from the relation's source to its target where the two fields are equal, under the
target's own name. -/
def join (r : Relation) : Join :=
  .on r.name r.source.table (.ofModel r.target) fun left right => do
    return .eq (.column (← right.column r.targetField)) (.column (← left.column r.sourceField))

end Relation

/-- A model with the relations declared on it, the newest first. -/
structure Table where
  model : Model
  relations : List Relation
  source_eq : ∀ r ∈ relations, r.source = model

namespace Table

/-- The table of a model, without relations. -/
def ofModel (m : Model) : Table := ⟨m, [], by simp⟩

/-- The table's name. -/
def name (t : Table) : String := t.model.table

/-- The table under its own name. -/
def ref (t : Table) : TableRef := .ofModel t.model

/-- Declares a relation to a field of a target model from a field of the table's. -/
def declare (t : Table) (name : String) (target : Model) (targetField sourceField : String) :
    Except Error Table :=
  if hs : t.model.hasField sourceField = true then
    if ht : target.hasField targetField = true then
      .ok {
        model := t.model
        relations :=
          ⟨name, t.model, target, targetField, sourceField, hs, ht⟩ ::
            t.relations.filter (·.name ≠ name)
        source_eq := by
          intro r hr
          rcases List.mem_cons.1 hr with rfl | hr
          · rfl
          · exact t.source_eq r (List.mem_filter.1 hr).1 }
    else .error (.unknownField target.table targetField)
  else .error (.unknownField t.model.table sourceField)

/-- The relation of a name. -/
def relation (t : Table) (name : String) : Except Error Relation :=
  match t.relations.find? (·.name = name) with
  | some r => .ok r
  | none => .error (.unknownRelation t.name name)

/-- The join of a relation, its table known by the table's name and the relation's. -/
def rel (t : Table) (name : String) : Except Error Join := do
  return (← t.relation name).join.rebase t.name

/-- The query on the table. -/
def query (t : Table) : Query := .ofTable t.ref

/-- The query on the table under an alias. -/
def queryAs (t : Table) (aliasName : String) : Query := .ofTable (t.ref.aliased aliasName)

end Table

end SqlCompose
