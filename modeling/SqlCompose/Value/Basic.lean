import SqlCompose.Numeric.Shortest
import SqlCompose.Text.Utf8

/-!
# Values

A value is a scalar bound to a placeholder of a statement, or a cell of a row that comes back.
Values are equal when they are of one kind and have the same content, reals by their bits, so
that values can be keys.
-/

namespace SqlCompose

/-- A scalar of one of the six kinds that databases store. -/
inductive Value where
  | null
  | bool (b : Bool)
  | integer (n : Int64)
  | real (x : Double)
  | text (s : String)
  | blob (bytes : List UInt8)
  deriving DecidableEq, Repr, Inhabited

/-- The kind of a value. -/
inductive Kind where
  | null
  | bool
  | integer
  | real
  | text
  | blob
  deriving DecidableEq, Repr

/-- The name of a kind in messages. -/
def Kind.name : Kind → String
  | .null => "NULL"
  | .bool => "BOOLEAN"
  | .integer => "INTEGER"
  | .real => "REAL"
  | .text => "TEXT"
  | .blob => "BLOB"

namespace Value

/-- The kind of the value. -/
def kind : Value → Kind
  | null => .null
  | bool _ => .bool
  | integer _ => .integer
  | real _ => .real
  | text _ => .text
  | blob _ => .blob

/-- Whether the value is null. -/
def isNull : Value → Bool
  | null => true
  | _ => false

/-- The number of an integer value. -/
def integer? : Value → Option Int64
  | integer n => some n
  | _ => none

/-- The number of a real value. -/
def real? : Value → Option Double
  | real x => some x
  | _ => none

/-- The characters of a text value. -/
def text? : Value → Option String
  | text s => some s
  | _ => none

/-- The truth value of a boolean, or of one of the integers 0 and 1 that stand for booleans in
databases without a type of their own for them. -/
def bool? : Value → Option Bool
  | bool b => some b
  | integer 0 => some false
  | integer 1 => some true
  | _ => none

/-- The text that shows the value to a person. A blob is shown as the text of its bytes. -/
def display : Value → String
  | null => "NULL"
  | bool b => if b then "true" else "false"
  | integer n => toString n.toInt
  | real x => x.text
  | text s => s
  | blob bytes => Utf8.decode bytes

end Value

end SqlCompose
