/-!
# Dialects, quoting and build contexts

Dialects differ in how they write placeholders and in where `LIMIT` and `OFFSET` may stand; the
quoting of names can be chosen apart from the dialect.

## Main definitions

* `Dialect`, `Dialect.placeholder`, `Dialect.defaultQuoting`.
* `Quoting`, `Quoting.apply`: how names are quoted.
* `Context`: everything that the text of a statement depends on besides the statement.
-/

namespace SqlCompose

/-- How names are written in statements. -/
inductive Quoting where
  | double
  | backtick
  | custom (write : String → String)

namespace Quoting

/-- The name between two marks, every mark inside it doubled. -/
def enclose (mark : Char) (name : String) : String :=
  String.ofList (mark :: (name.toList.flatMap fun c => if c = mark then [mark, c] else [c]) ++
    [mark])

/-- Writes a name. -/
def apply : Quoting → String → String
  | double, name => enclose '"' name
  | backtick, name => enclose '\x60' name
  | custom write, name => write name

/-- The description of a quoting. -/
def describe : Quoting → String
  | double => "Double"
  | backtick => "Backtick"
  | custom _ => "Custom(..)"

end Quoting

/-- The families of databases that statements are written for. -/
inductive Dialect where
  | sqlite
  | postgresql
  | mysql
  deriving DecidableEq, Repr, Inhabited

namespace Dialect

/-- The placeholder of the binding with the index, counted from one. -/
def placeholder : Dialect → Nat → String
  | postgresql, index => "$" ++ toString index
  | sqlite, _ | mysql, _ => "?"

/-- The quoting that a dialect uses unless told otherwise. -/
def defaultQuoting : Dialect → Quoting
  | sqlite | postgresql => .double
  | mysql => .backtick

/-- The name of the dialect. -/
def name : Dialect → String
  | sqlite => "SQLite"
  | postgresql => "PostgreSQL"
  | mysql => "MySQL"

end Dialect

/-- The target that a statement is written for. -/
structure Context where
  dialect : Dialect
  quoting : Quoting

namespace Context

/-- The context of a dialect with its own quoting. -/
def ofDialect (d : Dialect) : Context := ⟨d, d.defaultQuoting⟩

/-- The same context with another quoting. -/
def withQuoting (ctx : Context) (q : Quoting) : Context := { ctx with quoting := q }

instance : Inhabited Context := ⟨ofDialect default⟩

/-- The description of a context. -/
def describe (ctx : Context) : String :=
  "BuildContext \x7b dialect: " ++ ctx.dialect.name ++ ", quote: " ++ ctx.quoting.describe ++
    " \x7d"

end Context

end SqlCompose
