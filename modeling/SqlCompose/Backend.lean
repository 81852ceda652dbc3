import SqlCompose.Query.Statement
import SqlCompose.Row.Layout
import SqlCompose.Row.Extract

/-!
# Running queries

A backend runs statements: it names the context that statements are written for, and answers a
statement with rows or with an error of its own. Running a query gives a reply, which holds what
was sent besides the result.

## Main definitions

* `Backend`, `Reply`: backends, and what running something on them comes to.
* `Query.fetch`, `Query.load`, `Query.first`: the rows, the outputs, and the first output of a
  query.
-/

namespace SqlCompose

/-- The cells of a row in select order. -/
abbrev Row := List Value

/-- Something that runs statements. A statement sent alone gets its `answer`. When statements are
sent together, each gets `answerAt` its place among them, after `delay` rounds; equal statements at
two places may be answered differently. -/
structure Backend where
  context : Context
  answer : Compiled → Except Error (List Row)
  delay : Nat → Compiled → Nat
  answerAt : Nat → Compiled → Except Error (List Row) := fun _ => answer

/-- The statements that were sent, in order, and what came of them. -/
structure Reply (α : Type) where
  sent : List Compiled
  result : Except Error α

namespace Reply

/-- Goes on with the result. -/
def andThen {α β : Type} (r : Reply α) (f : α → Except Error β) : Reply β :=
  ⟨r.sent, r.result.bind f⟩

end Reply

namespace Query

/-- The rows of a query. A query that can not be compiled sends nothing. -/
def fetch (b : Backend) (q : Query) : Reply (List Row) :=
  match q.compile b.context with
  | .ok statement => ⟨[statement], b.answer statement⟩
  | .error e => ⟨[], .error e⟩

/-- The outputs of a query. -/
def load (b : Backend) (q : Query) : Reply (List Output) := (q.fetch b).andThen q.materialize

/-- The outputs of a query, each taken as a shape. -/
def loadAs (b : Backend) (shape : Shape) (q : Query) : Reply (List Extracted) :=
  (q.load b).andThen (·.mapM shape.extract)

/-- The first output of the query limited to one row. The query keeps its offset. -/
def first (b : Backend) (q : Query) : Reply (Option Output) :=
  ((q.withLimit 1).load b).andThen fun outputs => .ok outputs.head?

/-- The first output, taken as a shape. -/
def firstAs (b : Backend) (shape : Shape) (q : Query) : Reply (Option Extracted) :=
  (q.first b).andThen (·.mapM shape.extract)

end Query

end SqlCompose
