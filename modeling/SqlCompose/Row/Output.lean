import SqlCompose.Model.Record

/-!
# Outputs

What one row is read as: a record, a value, or a tuple of outputs.
-/

namespace SqlCompose

/-- A row that has been read back, or an item of one. -/
inductive Output where
  | record (r : Record)
  | value (v : Value)
  | tuple (items : List Output)
  deriving Repr

namespace Output

/-- What the output is, for messages. -/
def summary : Output → OutputSummary
  | record r => .record r.model.table
  | value v => .value v.kind
  | tuple items => .tuple items.length

/-- The failure of an output to be what is expected. -/
def unexpected {α : Type} (expected : OutputKind) (o : Output) : Except Error α :=
  .error (.mapping (.wrongOutput expected o.summary))

/-- The output taken as a record. -/
def expectRecord : Output → Except Error Record
  | record r => .ok r
  | o => unexpected .record o

/-- The output taken as a record of a model. -/
def expectModel (m : Model) (o : Output) : Except Error Record := do
  (← o.expectRecord).expect m

/-- The output taken as a value. -/
def expectValue : Output → Except Error Value
  | value v => .ok v
  | o => unexpected .value o

/-- The output taken as a tuple. -/
def expectTuple : Output → Except Error (List Output)
  | tuple items => .ok items
  | o => unexpected .tuple o

/-- The value, if the output is one. -/
def value? : Output → Option Value
  | value v => some v
  | _ => none

/-- The record, if the output is one of the model. -/
def model? (m : Model) : Output → Option Record
  | record r => r.as? m
  | _ => none

end Output

end SqlCompose
