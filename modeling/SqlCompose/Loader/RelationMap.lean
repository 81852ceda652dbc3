import SqlCompose.Schema.Table
import SqlCompose.Row.Output
import SqlCompose.Value.Order

/-!
# Related records by key

The records that a relation leads to, grouped by the value of the relation's target field. Groups
come in the order in which their keys were first met, and the records of a group in row order; a
key without records has no group.

## Main definitions

* `RelationMap`, `RelationMap.insert`, `RelationMap.ofOutputs`: maps, and grouping.
* `RelationMap.get?`, `RelationMap.forParent`: finding the records of a key.
* `RelationMap.typed`: all groups, as records of a model.
-/

namespace SqlCompose

/-- The records of a relation, grouped by key. -/
structure RelationMap where
  relation : Relation
  groups : List (Value × List Record)
  deriving Repr

namespace RelationMap

/-- The map without any record. -/
def empty (r : Relation) : RelationMap := ⟨r, []⟩

/-- The groups with one more record at the end of its key's group. -/
def insertInto (key : Value) (r : Record) :
    List (Value × List Record) → List (Value × List Record)
  | [] => [(key, [r])]
  | (k, rs) :: groups =>
    if k = key then (k, rs ++ [r]) :: groups else (k, rs) :: insertInto key r groups

/-- Adds a record under a key. -/
def insert (map : RelationMap) (key : Value) (r : Record) : RelationMap :=
  { map with groups := insertInto key r map.groups }

/-- Adds the record that an output is, under the value of its target field. -/
def insertOutput (map : RelationMap) (o : Output) : Except Error RelationMap := do
  let r ← o.expectRecord
  match r.valueOf map.relation.targetField with
  | some key => return map.insert key r
  | none => .error (.unknownField map.relation.target.table map.relation.targetField)

/-- The outputs of a relation's rows, grouped. -/
def ofOutputs (r : Relation) (outputs : List Output) : Except Error RelationMap :=
  outputs.foldlM insertOutput (empty r)

/-- The records of a key in row order, or `none` when it has none. -/
def get? (map : RelationMap) (key : Value) : Option (List Record) :=
  (map.groups.find? (·.1 = key)).map (·.2)

@[simp] theorem get?_empty (r : Relation) (key : Value) : (empty r).get? key = none := rfl

theorem find?_insertInto_self (key : Value) (r : Record) (groups : List (Value × List Record)) :
    (insertInto key r groups).find? (·.1 = key) =
      some (key, (((groups.find? (·.1 = key)).map (·.2)).getD []) ++ [r]) := by
  induction groups with
  | nil => simp [insertInto]
  | cons g groups ih =>
    by_cases h : g.1 = key
    · simp [insertInto, h]
    · simpa [insertInto, h] using ih

theorem find?_insertInto_of_ne {key other : Value} (h : key ≠ other) (r : Record)
    (groups : List (Value × List Record)) :
    (insertInto key r groups).find? (·.1 = other) = groups.find? (·.1 = other) := by
  induction groups with
  | nil => simp [insertInto, h]
  | cons g groups ih =>
    obtain ⟨k, rs⟩ := g
    by_cases hk : k = key
    · simp [insertInto, hk, h]
    · simp [insertInto, if_neg hk, List.find?_cons, ih]

/-- A record comes after those that its key has already, and leaves all other keys alone. -/
theorem get?_insert (map : RelationMap) (key other : Value) (r : Record) :
    (map.insert key r).get? other =
      if key = other then some ((map.get? key).getD [] ++ [r]) else map.get? other := by
  by_cases h : key = other
  · subst h
    simp [insert, get?, find?_insertInto_self]
  · simp [insert, get?, h, find?_insertInto_of_ne h]

/-- Whether the key has records. -/
def contains (map : RelationMap) (key : Value) : Bool := (map.get? key).isSome

/-- The records that belong to a parent, by its source field. -/
def forParent (map : RelationMap) (parent : Record) : Option (List Record) :=
  (parent.valueOf map.relation.sourceField).bind map.get?

/-- The records of a key, each taken as one of the model; a key without records has none. -/
def getAs (map : RelationMap) (m : Model) (key : Value) : Except Error (List Record) :=
  ((map.get? key).getD []).mapM (·.expect m)

/-- The keys in the order of the groups. -/
def keys (map : RelationMap) : List Value := map.groups.map (·.1)

/-- The number of keys. -/
def size (map : RelationMap) : Nat := map.groups.length

/-- Whether there is no record. -/
def isEmpty (map : RelationMap) : Bool := map.groups.isEmpty

/-- The groups with every record taken as one of the model. -/
def typed (map : RelationMap) (m : Model) : Except Error RelationMap := do
  let groups ← map.groups.mapM fun (key, rs) => do return (key, ← rs.mapM (·.expect m))
  return { map with groups }

/-- The groups in the order of their keys as values. -/
def inKeyOrder (map : RelationMap) : List (Value × List Record) :=
  map.groups.mergeSort fun a b => a.1.le b.1

end RelationMap

end SqlCompose
