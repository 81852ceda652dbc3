import SqlCompose.Value.Basic

/-!
# Storage cells

The database file format stores values in cells of five classes. Booleans have no class of their
own and are stored as the integers 0 and 1, and a text cell holds bytes that need not be UTF-8.
-/

namespace SqlCompose

/-- A cell of one of the five storage classes. -/
inductive Cell where
  | null
  | integer (n : Int64)
  | real (x : Double)
  | text (bytes : List UInt8)
  | blob (bytes : List UInt8)
  deriving DecidableEq, Repr

/-- The cell that stores a value. -/
def Value.toCell : Value → Cell
  | null => .null
  | bool b => .integer b.toInt64
  | integer n => .integer n
  | real x => .real x
  | text s => .text (Utf8.encode s)
  | blob bytes => .blob bytes

/-- The value that a cell is read as. -/
def Cell.toValue : Cell → Value
  | null => .null
  | integer n => .integer n
  | real x => .real x
  | text bytes => .text (Utf8.decode bytes)
  | blob bytes => .blob bytes

end SqlCompose
