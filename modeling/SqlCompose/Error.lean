import SqlCompose.Value.Basic
import SqlCompose.Value.ScalarType

/-!
# Errors

Everything that can fail fails with the cause, and `Error.message` is the one place that words it.
-/

namespace SqlCompose

/-- What an output is expected to be. -/
inductive OutputKind where
  | record
  | value
  | tuple
  deriving DecidableEq, Repr

/-- What an output was found to be: a record of a table, a value of a kind, a tuple of a length. -/
inductive OutputSummary where
  | record (table : String)
  | value (kind : Kind)
  | tuple (size : Nat)
  deriving DecidableEq, Repr

/-- Why a row, a cell or an output does not fit what is asked of it. -/
inductive MappingError where
  | cannotConvert (kind : Kind) (target : ConversionTarget)
  | outOfRange (n : Int) (type : IntType)
  | wrongRecord (expected found : String)
  | wrongOutput (expected : OutputKind) (found : OutputSummary)
  | rowWidth (found expected : Nat)
  | rowEnded
  | tupleSize (expected found : Nat)
  | tupleEnded
  deriving DecidableEq, Repr

/-- Why a query can not be built, compiled, run or read back. -/
inductive Error where
  /-- A membership test without any candidate. -/
  | emptyInList
  /-- A field that the model behind the table does not have. -/
  | unknownField (table field : String)
  /-- A relation or join that the table does not have. -/
  | unknownRelation (table relation : String)
  /-- The join `name` starts at the table `left` and hangs below the table `parent`. -/
  | misplacedJoin (name left parent : String)
  /-- The relation `name` of the table `source` is asked for records of the table `parents`. -/
  | foreignRelation (name source parents : String)
  /-- A select list without an item. -/
  | emptySelect
  /-- An item of a group list that carries a name. -/
  | aliasedGroupItem
  /-- What came back does not fit. -/
  | mapping (cause : MappingError)
  /-- The database refused the statement. -/
  | execution (report : String)
  deriving DecidableEq, Repr

/-- The words for an expected output. -/
def OutputKind.words : OutputKind → String
  | record => "a model"
  | value => "a value"
  | tuple => "a tuple"

/-- The words for an output that was found. -/
def OutputSummary.words : OutputSummary → String
  | record table => "a `" ++ table ++ "` model"
  | value kind => "a " ++ kind.name ++ " value"
  | tuple size => "a " ++ toString size ++ "-tuple"

/-- The message of a mapping error. -/
def MappingError.message : MappingError → String
  | cannotConvert kind target => "cannot convert " ++ kind.name ++ " to " ++ target.name
  | outOfRange n type => "integer " ++ toString n ++ " out of range for " ++ type.name
  | wrongRecord expected found => "expected a `" ++ expected ++ "` record, found `" ++ found ++ "`"
  | wrongOutput expected found => "expected " ++ expected.words ++ ", found " ++ found.words
  | rowWidth found expected =>
    "row has " ++ toString found ++ " columns, select list has " ++ toString expected
  | rowEnded => "row ended early"
  | tupleSize expected found =>
    "expected a " ++ toString expected ++ "-tuple, found a " ++ toString found ++ "-tuple"
  | tupleEnded => "tuple ended early"

/-- The message of an error. -/
def Error.message : Error → String
  | emptyInList => "Cannot pass empty arguments to IN"
  | unknownField table field => "Unknown field `" ++ field ++ "` on model `" ++ table ++ "`"
  | unknownRelation table relation =>
    "Unknown relation `" ++ relation ++ "` on table `" ++ table ++ "`"
  | misplacedJoin name left parent =>
    "Invalid join: `" ++ name ++ "` joins from `" ++ left ++ "` but is attached to `" ++ parent ++
      "`"
  | foreignRelation name source parents =>
    "Invalid join: relation `" ++ name ++ "` belongs to `" ++ source ++ "`, not `" ++ parents ++
      "`"
  | emptySelect => "Not supported: empty select list"
  | aliasedGroupItem => "Not supported: aliased expressions in GROUP BY"
  | mapping cause => "Mapping error: " ++ cause.message
  | execution report => "Execution error: " ++ report

end SqlCompose
