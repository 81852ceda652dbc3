import SqlCompose.Backend
import SqlCompose.Error
import SqlCompose.Expr.Basic
import SqlCompose.Expr.Build
import SqlCompose.Expr.Print
import SqlCompose.Loader.Batch
import SqlCompose.Loader.RelationMap
import SqlCompose.Model.Basic
import SqlCompose.Model.Record
import SqlCompose.Numeric.Binary
import SqlCompose.Numeric.Power
import SqlCompose.Numeric.Shortest
import SqlCompose.Query.Basic
import SqlCompose.Query.Join
import SqlCompose.Query.Statement
import SqlCompose.Query.TableRef
import SqlCompose.Row.Extract
import SqlCompose.Row.Layout
import SqlCompose.Row.Output
import SqlCompose.Schema.Table
import SqlCompose.Sql.Dialect
import SqlCompose.Sql.Statement
import SqlCompose.Sql.Token
import SqlCompose.Text.CodeRange
import SqlCompose.Text.Combining
import SqlCompose.Text.Naming
import SqlCompose.Text.Printable
import SqlCompose.Text.Quoted
import SqlCompose.Text.Unassigned
import SqlCompose.Text.Utf8
import SqlCompose.Value.Basic
import SqlCompose.Value.Cell
import SqlCompose.Value.Order
import SqlCompose.Value.Scalar
import SqlCompose.Value.ScalarType
import SqlCompose.Proofs.Sql.Lexeme
import SqlCompose.Proofs.Sql.Grammar
import SqlCompose.Proofs.Sql.SelectList
import SqlCompose.Proofs.Sql.Mask
import SqlCompose.Proofs.Sql.View
import SqlCompose.Proofs.Expr.Reading
import SqlCompose.Proofs.Expr.RoundTrip
import SqlCompose.Proofs.Expr.Meaning
import SqlCompose.Proofs.Expr.Attainment
import SqlCompose.Proofs.Expr.Distinction
import SqlCompose.Proofs.Query.Clauses
import SqlCompose.Proofs.Query.Placeholders
import SqlCompose.Proofs.Query.Alike
import SqlCompose.Proofs.Query.Identifiers
import SqlCompose.Proofs.Query.Literals
import SqlCompose.Proofs.Query.Calls
import SqlCompose.Proofs.Query.Assembly
import SqlCompose.Proofs.Query.Distinct
import SqlCompose.Proofs.Numeric.Widening
import SqlCompose.Proofs.Value.Conversion
import SqlCompose.Proofs.Value.Rereading
import SqlCompose.Proofs.Row.Placement
import SqlCompose.Proofs.Row.Written
import SqlCompose.Proofs.Row.Fields
import SqlCompose.Proofs.Schema.Declarations
import SqlCompose.Proofs.Loader.Gathering
import SqlCompose.Proofs.Loader.Grouping
import SqlCompose.Proofs.Loader.Statements
import SqlCompose.Proofs.Loader.Completion
import SqlCompose.Proofs.Loader.Lookup
import SqlCompose.Proofs.Query.Outcome
import SqlCompose.Proofs.Query.Scoping
import SqlCompose.Proofs.Query.Sentences
import SqlCompose.Proofs.Query.Interleaving
import SqlCompose.Proofs.Sql.Sections
import SqlCompose.Proofs.Query.Lists
import SqlCompose.Proofs.Query.Texts
import SqlCompose.Proofs.Row.DefaultShape
import SqlCompose.Proofs.Query.Contexts
import SqlCompose.Proofs.Query.Conjunctions
import SqlCompose.Proofs.Row.Failures
import SqlCompose.Proofs.Row.Agreement
import SqlCompose.Proofs.Row.Assignments
import SqlCompose.Proofs.Row.Shapes
import SqlCompose.Proofs.Text.Decoding
import SqlCompose.Proofs.Value.Storage
import SqlCompose.Proofs.Value.Integers
import SqlCompose.Proofs.Query.First
import SqlCompose.Proofs.Sql.Reference
import SqlCompose.Proofs.Schema.ColumnNames
