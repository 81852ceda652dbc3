import SqlCompose.Row.Output

/-!
# Typed extraction

An output is taken as a shape: a scalar of a type, a record of a model, any output at all, or a
tuple of shapes. A tuple's length is compared before its items are looked at, and the items are
taken from left to right.
-/

namespace SqlCompose

/-- What an output is taken as. -/
inductive Shape where
  | scalar (t : ScalarType)
  | record (m : Model)
  | output
  | tuple (parts : List Shape)
  deriving Repr

/-- What an extraction gives. -/
inductive Extracted where
  | scalar (s : Scalar)
  | record (r : Record)
  | output (o : Output)
  | tuple (parts : List Extracted)
  deriving Repr

namespace Shape

mutual

/-- Takes an output as the shape. -/
def extract : Shape → Output → Except Error Extracted
  | scalar t, o => do return .scalar (← t.convert (← o.expectValue))
  | record m, o => do return .record (← o.expectModel m)
  | output, o => .ok (.output o)
  | tuple parts, o => do
    let items ← o.expectTuple
    if items.length = parts.length then return .tuple (← extractEach parts items)
    else .error (.mapping (.tupleSize parts.length items.length))

/-- Takes each output as the shape at its place. -/
def extractEach : List Shape → List Output → Except Error (List Extracted)
  | [], _ => .ok []
  | _ :: _, [] => .error (.mapping .tupleEnded)
  | s :: ss, o :: os => do return (← s.extract o) :: (← extractEach ss os)

end

end Shape

end SqlCompose
