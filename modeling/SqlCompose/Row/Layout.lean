import SqlCompose.Query.Basic
import SqlCompose.Row.Output

/-!
# Reading rows back

The cells of a row follow the select list: one for each computed item, and one for each column of
a table, the tables of a join tree depth first. Every table becomes one record and every computed
item one value; a row with a single slot becomes that item, and any other a tuple.

## Main definitions

* `Slot`, `Join.slots`, `SelectItem.slots`: what the cells of a row belong to.
* `Record.fill`, `Slot.read`: the cells of a row taken off one by one, for a table and for all
  slots.
* `Query.materialize`: the outputs of rows.
-/

namespace SqlCompose

/-- A part of a row: the columns of a table, or a single computed cell. -/
inductive Slot where
  | table (t : TableRef)
  | computed
  deriving DecidableEq, Repr

/-- The number of cells of a slot. -/
def Slot.width : Slot → Nat
  | table t => t.columns.length
  | computed => 1

namespace Join

mutual

/-- The slots of a join tree: its table's, then those of the joins below it. -/
def slots : Join → List Slot
  | ⟨_, _, right, _, children⟩ => .table right :: slotsAll children

/-- The slots of all the trees. -/
def slotsAll : List Join → List Slot
  | [] => []
  | j :: js => j.slots ++ slotsAll js

end

end Join

/-- The slots of a select entry. -/
def SelectItem.slots : SelectItem → List Slot
  | expr _ | aliased _ _ => [.computed]
  | columns t => [.table t]
  | join j => j.slots

namespace Record

/-- Takes cells off the front of a row into the fields of columns, one after the other; gives the
record and the cells that are left. -/
def fill (r : Record) : List Column → List Value → Except Error (Record × List Value)
  | [], cells => .ok (r, cells)
  | _ :: _, [] => .error (.mapping .rowEnded)
  | c :: cs, v :: vs => do fill (← r.assign c.field v) cs vs

end Record

namespace Slot

/-- The number of cells of all slots. -/
def totalWidth : List Slot → Nat
  | [] => 0
  | s :: slots => s.width + totalWidth slots

/-- The items of a row, slot by slot, each from the cells that the slots before it leave. -/
def read : List Slot → List Value → Except Error (List Output)
  | [], _ => .ok []
  | table t :: slots, cells => do
    let (r, rest) ← (Record.blank t.model).fill t.columns cells
    return .record r :: (← read slots rest)
  | computed :: _, [] => .error (.mapping .rowEnded)
  | computed :: slots, v :: cells => do return .value v :: (← read slots cells)

end Slot

/-- A single item is itself, and any other number of items is a tuple. -/
def Output.ofItems : List Output → Output
  | [item] => item
  | items => .tuple items

namespace Query

/-- The slots of a query's rows. -/
def slots (q : Query) : List Slot := q.selected.flatMap SelectItem.slots

/-- The output of a row, which has to have as many cells as the select list has columns. -/
def readRow (q : Query) (row : List Value) : Except Error Output :=
  if row.length = Slot.totalWidth q.slots then (Slot.read q.slots row).map .ofItems
  else .error (.mapping (.rowWidth row.length (Slot.totalWidth q.slots)))

/-- The outputs of the rows, or the error of the first row that has one. -/
def materialize (q : Query) (rows : List (List Value)) : Except Error (List Output) :=
  rows.mapM q.readRow

end Query

end SqlCompose
