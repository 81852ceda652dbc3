import SqlCompose.Backend
import SqlCompose.Loader.RelationMap

/-!
# Loading relations in batches

For all parents at once, each relation is loaded by one query on its target, restricted to the
parents' keys. All queries of a batch are built before the first is sent; the relations are then
fetched together. One failure fails the batch.

How the fetches of a batch are waited for is not said here, but what is relied on: they are started
in the order of the relations, each sending its statement when it is started; their results are
seen in some order; the first failure that is seen ends the batch, and without one the maps come in
the order of the relations.

One way to wait is by rounds: every round looks at each fetch that has not finished, in order, and
the first round starts them. A batch of up to `Fetch.watched` relations ends at the first failure
that a round meets. A larger one takes the answers in the order of the relations, so that it ends at
the first failing relation once all relations before it have finished.

## Main definitions

* `Loader`, `Table.loader`: a batch of relations.
* `Loader.queries`: the queries for some parents.
* `Fetch`: one relation of a batch under way.
* `Gather`, `Gather.Lawful`: ways of waiting for fetches together, and what is relied on.
* `Gather.inRounds`: waiting by rounds.
* `Loader.load`: the maps of all relations.
-/

namespace SqlCompose

/-- Relations to be loaded together. -/
structure Loader where
  relations : List Relation
  deriving Repr

/-- The loader of the named relations, in the order of the names. -/
def Table.loader (t : Table) (names : List String) : Except Error Loader := do
  return ⟨← names.mapM t.relation⟩

namespace Relation

/-- The keys that the relation looks up for the parents, as literals. -/
def keysOf (r : Relation) (parentModel : Model) (parents : List Record) :
    Except Error (List Expr) :=
  parents.mapM fun parent =>
    match parent.valueOf r.sourceField with
    | some key => .ok (.literal key)
    | none => .error (.unknownField parentModel.table r.sourceField)

/-- The target under the alias made of the parents' table and the relation's name. -/
def batchSource (r : Relation) (parentModel : Model) : TableRef :=
  .of r.target (some (Join.pathName parentModel.table r.name))

/-- The query for the records that belong to the parents, or `none` when there is no parent. A key
that several parents share is repeated. -/
def batchQuery (r : Relation) (parentModel : Model) (parents : List Record) :
    Except Error (Option Query) :=
  if r.source.table ≠ parentModel.table then
    .error (.foreignRelation r.name r.source.table parentModel.table)
  else if parents.isEmpty then .ok none
  else do
    let keys ← r.keysOf parentModel parents
    let source := r.batchSource parentModel
    let key ← source.column r.targetField
    return some ((Query.ofTable source).filter (← Expr.oneOf (.column key) keys))

end Relation

/-- One relation of a batch: the statement it sends, if any, the number of rounds it is waited for
after the first, and what comes of it. -/
structure Fetch where
  statement : Option Compiled
  delay : Nat
  result : Except Error RelationMap

namespace Fetch

/-- The fetch of the relation at a place of the batch. A relation without a query sends nothing
and comes to an empty map. -/
def start (b : Backend) (place : Nat) (r : Relation) : Option Query → Fetch
  | none => ⟨none, 0, .ok (.empty r)⟩
  | some q =>
    match q.compile b.context with
    | .error e => ⟨none, 0, .error e⟩
    | .ok statement =>
      ⟨some statement, b.delay place statement,
        ((b.answerAt place statement).bind q.materialize).bind (RelationMap.ofOutputs r)⟩

/-- The error of a fetch that fails. -/
def error? (f : Fetch) : Option Error :=
  match f.result with
  | .error e => some e
  | .ok _ => none

/-- The error of the fetch at a place, if it fails. -/
def failureAt (fs : List Fetch) (place : Nat) : Option Error := fs[place]?.bind error?

end Fetch

/-! ### Waiting together -/

/-- A way of waiting for the fetches of a batch together. -/
structure Gather where
  run : List Fetch → Reply (List RelationMap)

namespace Gather

/-- What fetches come to when `started` of them are started and results are seen of the places
`seen`, in that order. -/
structure Course (fs : List Fetch) (started : Nat) (seen : List Nat)
    (reply : Reply (List RelationMap)) : Prop where
  /-- The fetches are started in order, and each sends its statement then. -/
  first_poll : reply.sent = (fs.take started).filterMap Fetch.statement
  /-- Results are seen only of what was started. -/
  seen_started : ∀ place ∈ seen, place < started
  /-- As long as no failure is seen, the batch goes on until all results are. -/
  seen_all : seen.findSome? (Fetch.failureAt fs) = none → ∀ place < fs.length, place ∈ seen
  /-- The first failure that is seen is returned. -/
  first_error : ∀ e, seen.findSome? (Fetch.failureAt fs) = some e → reply.result = .error e
  /-- Where nothing fails, the maps are returned in the order of the fetches. -/
  input_order : ∀ maps, fs.map Fetch.result = maps.map .ok → reply.result = .ok maps

/-- Whether fetches are waited for as is relied on, whatever they come to. -/
def Lawful (g : Gather) : Prop := ∀ fs, ∃ started seen, Course fs started seen (g.run fs)

end Gather

namespace Fetch

/-- The greatest size of a batch that is watched as a whole. -/
def watched : Nat := 30

/-- Whether the fetch fails. -/
def fails (f : Fetch) : Bool := f.error?.isSome

/-- Whether the fetch finishes in the round that starts it. -/
def isImmediate (f : Fetch) : Bool := f.delay == 0

/-- The fetches up to the first that satisfies a condition, that one included. -/
def upTo (p : Fetch → Bool) : List Fetch → List Fetch
  | [] => []
  | f :: fs => f :: if p f then [] else upTo p fs

/-- The fetches that are started before the batch ends. -/
def started (fs : List Fetch) : List Fetch :=
  if fs.length ≤ watched then upTo (fun f => f.isImmediate && f.fails) fs
  else if (fs.takeWhile isImmediate).any fails then upTo fails fs
  else fs

/-- The fetches that are started, each with its place, in the order in which they are seen: by
rounds and in a round by place, or by place alone. -/
def seen (fs : List Fetch) : List (Fetch × Nat) :=
  if fs.length ≤ watched then (started fs).zipIdx.mergeSort fun f g => f.1.delay ≤ g.1.delay
  else (started fs).zipIdx

end Fetch

/-- Waiting by rounds. -/
def Gather.inRounds : Gather where
  run fs := {
    sent := (Fetch.started fs).filterMap Fetch.statement
    result :=
      match (Fetch.seen fs).findSome? fun step => step.1.error? with
      | some e => .error e
      | none => fs.mapM Fetch.result }

namespace Loader

/-- One query for each relation, in order. -/
def queries (l : Loader) (parentModel : Model) (parents : List Record) :
    Except Error (List (Option Query)) :=
  l.relations.mapM fun r => r.batchQuery parentModel parents

/-- The fetches of the relations with their queries, each at its place of the batch. -/
def fetches (l : Loader) (b : Backend) (queries : List (Option Query)) : List Fetch :=
  (l.relations.zip queries).zipIdx.map fun ((r, q), place) => Fetch.start b place r q

/-- One map for each relation, in order. When a query can not be built nothing is sent. -/
def load (l : Loader) (b : Backend) (parentModel : Model) (parents : List Record)
    (gather : Gather := .inRounds) : Reply (List RelationMap) :=
  match l.queries parentModel parents with
  | .error e => ⟨[], .error e⟩
  | .ok queries => gather.run (l.fetches b queries)

end Loader

end SqlCompose
