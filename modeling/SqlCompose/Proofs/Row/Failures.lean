import SqlCompose.Backend
import SqlCompose.Proofs.Query.Outcome
import SqlCompose.Proofs.Row.Placement
import SqlCompose.Proofs.Value.Conversion

/-!
# Rows that can not be read

Rows are read all or none. A row is read exactly if it has as many cells as the select list asks for
and every cell of a table is taken by the type of its field. The cells are taken off a row one by
one and are assigned by the names of fields, but neither do they run out nor is a name unknown: the
width that is compared first is the number of cells that the slots take, and the columns of a table
are named for the fields of its model.

## Main definitions

* `Query.cells`: the cells of a row, each with the field that it is assigned to.
* `Query.Readable`, `Query.Fails`: the rows that are read, and how the other ones fail.

## Main results

* `mapM_eq_error_iff`: a list fails as its first entry that does.
* `Slot.reports_read`: the slots of a row fail as the first cell that its field does not take.
* `Query.materialize_outcome`: rows are read all, or fail as the first that can not be read.
-/

namespace SqlCompose

/-- A list fails exactly as the first of its entries that does. -/
theorem mapM_eq_error_iff {ε α β : Type} {f : α → Except ε β} {xs : List α} {e : ε} :
    xs.mapM f = .error e ↔ ∃ before x after, xs = before ++ x :: after ∧
      (∀ y ∈ before, ∃ b, f y = .ok b) ∧ f x = .error e := by
  constructor
  · intro h
    induction xs with
    | nil => cases h
    | cons x xs ih =>
      rw [List.mapM_cons] at h
      cases hx : f x with
      | error e' =>
        rw [hx] at h
        cases h
        exact ⟨[], x, xs, rfl, nofun, hx⟩
      | ok y =>
        rw [hx] at h
        cases hxs : xs.mapM f with
        | error e' =>
          rw [hxs] at h
          cases h
          obtain ⟨before, z, after, rfl, hbefore, hz⟩ := ih hxs
          exact ⟨x :: before, z, after, rfl, List.forall_mem_cons.mpr ⟨⟨y, hx⟩, hbefore⟩, hz⟩
        | ok ys =>
          rw [hxs] at h
          cases h
  · rintro ⟨before, x, after, rfl, hbefore, hx⟩
    induction before with
    | nil =>
      rw [List.nil_append, List.mapM_cons, hx]
      rfl
    | cons y before ih =>
      obtain ⟨⟨b, hb⟩, hbefore⟩ := List.forall_mem_cons.mp hbefore
      rw [List.cons_append, List.mapM_cons, hb]
      change ((before ++ x :: after).mapM f >>= fun ys => pure (b :: ys)) = .error e
      rw [ih hbefore]
      rfl

/-! ### Cells and their fields -/

/-- The fields that the cells of a slot are assigned to. A computed cell is kept as it is. -/
def Slot.fields : Slot → List (Option Field)
  | table t => t.model.fields.map some
  | computed => [none]

/-- The error of a cell that its field does not take. -/
def cellFailures : Option Field × Value → List Error
  | (some f, v) =>
    match f.type.convert v with
    | .ok _ => []
    | .error e => [e]
  | (none, _) => []

theorem reports_convert (f : Field) (v : Value) :
    Reports (f.type.convert v) (cellFailures (some f, v)) := by
  rw [cellFailures]
  cases f.type.convert v with
  | ok s => exact .ok s
  | error e => exact .error e []

theorem Record.reports_readCells {fields : List Field} {cells : List Value}
    (h : cells.length = fields.length) :
    Reports (readCells fields cells) (((fields.map some).zip cells).flatMap cellFailures) := by
  induction fields generalizing cells with
  | nil => exact .ok []
  | cons f fields ih =>
    cases cells with
    | nil => cases h
    | cons v cells =>
      rw [readCells, List.map_cons, List.zip_cons_cons, List.flatMap_cons]
      refine (reports_convert f v).bind fun s => ?_
      exact (ih (Nat.succ.inj h)).map (s :: ·)

theorem Record.reports_ofCells {m : Model} {cells : List Value}
    (h : cells.length = m.fields.length) :
    Reports (ofCells m cells) (((m.fields.map some).zip cells).flatMap cellFailures) := fun e => by
  rw [ofCells_eq_error_iff]
  exact reports_readCells h e

/-- The slots of a row fail as the first of its cells that its field does not take, and in no other
way: the cells do not run out. -/
theorem Slot.reports_read {slots : List Slot} {row : List Value}
    (h : row.length = totalWidth slots) :
    Reports (read slots row) (((slots.flatMap fields).zip row).flatMap cellFailures) := by
  induction slots generalizing row with
  | nil => exact .ok []
  | cons s slots ih =>
    rw [totalWidth] at h
    cases s with
    | computed =>
      cases row with
      | nil => cases (Nat.add_comm _ _).symm.trans h.symm
      | cons v row =>
        have hrow : row.length = totalWidth slots := Nat.succ.inj (h.trans (Nat.add_comm _ _))
        exact (ih hrow).map (Output.value v :: ·)
    | table t =>
      have hwidth : t.columns.length + totalWidth slots = row.length := h.symm
      have hown : (row.take t.columns.length).length = t.model.fields.length := by
        rw [List.length_take_of_le (by omega), TableRef.length_columns]
      have hrest : (row.drop t.columns.length).length = totalWidth slots := by
        rw [List.length_drop]
        omega
      have hcells : ((table t :: slots).flatMap fields).zip row =
          ((t.model.fields.map some).zip (row.take t.columns.length)) ++
            ((slots.flatMap fields).zip (row.drop t.columns.length)) := by
        rw [← List.zip_append (by rw [hown, List.length_map]), List.take_append_drop,
          List.flatMap_cons, fields]
      rw [read_table (by omega), hcells, List.flatMap_append]
      refine (Record.reports_ofCells hown).bind fun r => ?_
      exact (ih hrest).map (Output.record r :: ·)

/-! ### Rows -/

namespace Query

/-- The cells of a row, each with the field of a table that it is assigned to, if it is not one of a
computed entry. -/
def cells (q : Query) (row : Row) : List (Option Field × Value) :=
  (q.slots.flatMap Slot.fields).zip row

/-- A row that can be read: it has as many cells as the select list asks for, and every cell of a
table is taken by the type of its field. -/
structure Readable (q : Query) (row : Row) : Prop where
  length_eq : row.length = Slot.totalWidth q.slots
  converts : ∀ f v, (some f, v) ∈ q.cells row → ∃ s, f.type.convert v = .ok s

/-- How a row fails to be read: by its width, if that is wrong, and otherwise by its first cell that
the type of its field does not take. -/
inductive Fails (q : Query) (row : Row) : Error → Prop
  | width (h : row.length ≠ Slot.totalWidth q.slots) :
      Fails q row (.mapping (.rowWidth row.length (Slot.totalWidth q.slots)))
  | cell {before after : List (Option Field × Value)} {f : Field} {v : Value} {e : Error}
      (hlen : row.length = Slot.totalWidth q.slots)
      (hcells : q.cells row = before ++ (some f, v) :: after)
      (hbefore : ∀ g w, (some g, w) ∈ before → ∃ s, g.type.convert w = .ok s)
      (he : f.type.convert v = .error e) : Fails q row e

end Query

theorem cellFailures_eq_nil_iff {cell : Option Field × Value} : cellFailures cell = [] ↔
    ∀ f v, cell = (some f, v) → ∃ s, f.type.convert v = .ok s := by
  obtain ⟨_ | f, v⟩ := cell
  · exact ⟨fun _ _ _ h => (nomatch h), fun _ => rfl⟩
  · rw [← (reports_convert f v).exists_ok_iff]
    constructor
    · rintro h _ _ ⟨⟩
      exact h
    · exact fun h => h f v rfl

theorem head?_cellFailures_eq_some_iff {cell : Option Field × Value} {e : Error} :
    (cellFailures cell).head? = some e ↔
      ∃ f v, cell = (some f, v) ∧ f.type.convert v = .error e := by
  obtain ⟨_ | f, v⟩ := cell
  · exact ⟨nofun, fun ⟨_, _, h, _⟩ => nomatch h⟩
  · rw [← reports_convert f v e]
    constructor
    · exact fun h => ⟨f, v, rfl, h⟩
    · rintro ⟨_, _, ⟨⟩, h⟩
      exact h

namespace Query

theorem reports_readRow {q : Query} {row : Row} (h : row.length = Slot.totalWidth q.slots) :
    Reports (q.readRow row) ((q.cells row).flatMap cellFailures) := by
  rw [readRow, if_pos h]
  exact (Slot.reports_read h).map Output.ofItems

theorem readRow_of_length_ne {q : Query} {row : Row} (h : row.length ≠ Slot.totalWidth q.slots) :
    q.readRow row = .error (.mapping (.rowWidth row.length (Slot.totalWidth q.slots))) := by
  rw [readRow, if_neg h]

theorem exists_readRow_iff {q : Query} {row : Row} :
    (∃ o, q.readRow row = .ok o) ↔ q.Readable row := by
  by_cases hlen : row.length = Slot.totalWidth q.slots
  · rw [(reports_readRow hlen).exists_ok_iff, List.flatMap_eq_nil_iff]
    constructor
    · exact fun h => ⟨hlen, fun f v hcell => cellFailures_eq_nil_iff.mp (h _ hcell) f v rfl⟩
    · rintro h cell hcell
      refine cellFailures_eq_nil_iff.mpr ?_
      rintro f v rfl
      exact h.converts f v hcell
  · rw [readRow_of_length_ne hlen]
    exact iff_of_false (fun ⟨_, h⟩ => nomatch h) fun h => hlen h.length_eq

theorem readRow_eq_error_iff {q : Query} {row : Row} {e : Error} :
    q.readRow row = .error e ↔ q.Fails row e := by
  by_cases hlen : row.length = Slot.totalWidth q.slots
  · rw [reports_readRow hlen e, List.head?_flatMap, List.findSome?_eq_some_iff]
    constructor
    · rintro ⟨before, cell, after, hcells, hcell, hbefore⟩
      obtain ⟨f, v, rfl, he⟩ := head?_cellFailures_eq_some_iff.mp hcell
      refine .cell hlen hcells (fun g w hg => ?_) he
      exact cellFailures_eq_nil_iff.mp (List.head?_eq_none_iff.mp (hbefore _ hg)) g w rfl
    · rintro (h | ⟨-, hcells, hbefore, he⟩)
      · exact absurd hlen h
      · refine ⟨_, _, _, hcells, head?_cellFailures_eq_some_iff.mpr ⟨_, _, rfl, he⟩, ?_⟩
        refine fun cell hcell => List.head?_eq_none_iff.mpr (cellFailures_eq_nil_iff.mpr ?_)
        rintro g w rfl
        exact hbefore g w hcell
  · rw [readRow_of_length_ne hlen]
    constructor
    · intro h
      cases h
      exact .width hlen
    · rintro (h | ⟨h, -, -, -⟩)
      · rfl
      · exact absurd h hlen

/-- Every failure of a row is one of its width or of a conversion. -/
theorem Fails.cause {q : Query} {row : Row} {e : Error} (h : q.Fails row e) :
    (∃ found expected, e = .mapping (.rowWidth found expected)) ∨
      (∃ kind target, e = .mapping (.cannotConvert kind target)) ∨
        ∃ n type, e = .mapping (.outOfRange n type) := by
  cases h with
  | width h => exact .inl ⟨_, _, rfl⟩
  | cell hlen hcells hbefore he =>
    obtain ⟨target, rfl⟩ | ⟨n, type, rfl⟩ := ScalarType.cause_of_convert he
    · exact .inr (.inl ⟨_, target, rfl⟩)
    · exact .inr (.inr ⟨n, type, rfl⟩)

theorem materialize_singleton_iff {q : Query} {row : Row} {o : Output} :
    q.materialize [row] = .ok [o] ↔ q.readRow row = .ok o := by
  rw [materialize, mapM_eq_ok_iff_forall₂, List.forall₂_cons]
  exact and_iff_left .nil

theorem exists_materialize_iff {q : Query} {rows : List Row} :
    (∃ outputs, q.materialize rows = .ok outputs) ↔ ∀ row ∈ rows, q.Readable row := by
  constructor
  · rintro ⟨outputs, h⟩ row hrow
    exact exists_readRow_iff.mp (exists_of_mem_of_mapM h row hrow)
  · intro h
    cases hrows : q.materialize rows with
    | ok outputs => exact ⟨outputs, rfl⟩
    | error e =>
      obtain ⟨row, hrow, he⟩ := exists_of_mapM_eq_error hrows
      obtain ⟨o, ho⟩ := exists_readRow_iff.mpr (h row hrow)
      cases ho.symm.trans he

theorem materialize_eq_error_iff {q : Query} {rows : List Row} {e : Error} :
    q.materialize rows = .error e ↔ ∃ before row after, rows = before ++ row :: after ∧
      (∀ r ∈ before, q.Readable r) ∧ q.Fails row e := by
  rw [materialize, mapM_eq_error_iff]
  simp only [exists_readRow_iff, readRow_eq_error_iff]

/-- Rows are read all or none. They are read exactly if each of them has as many cells as the select
list asks for and the cells of tables are taken by the types of their fields; then there is one
output for each row, in order, which is what the row alone is read as. Otherwise they fail as the
first row that can not be read: by its width if that is wrong, and else as its first cell that is
not taken. In no case do cells run out or is a field unknown. Rows that are loaded as a shape fail
in addition as the first output that is not of the shape. -/
theorem materialize_outcome (q : Query) (rows : List Row) :
    ((∃ outputs, q.materialize rows = .ok outputs) ↔ ∀ row ∈ rows, q.Readable row) ∧
    (∀ outputs, q.materialize rows = .ok outputs ↔
      List.Forall₂ (fun row o => q.materialize [row] = .ok [o]) rows outputs) ∧
    (∀ e, q.materialize rows = .error e ↔ ∃ before row after, rows = before ++ row :: after ∧
      (∀ r ∈ before, q.Readable r) ∧ q.Fails row e) ∧
    (∀ e, q.materialize rows = .error e →
      e ≠ .mapping .rowEnded ∧ ∀ table field, e ≠ .unknownField table field) ∧
    ∀ b shape, (q.loadAs b shape).sent = (q.load b).sent ∧
      (∀ e, (q.load b).result = .error e → (q.loadAs b shape).result = .error e) ∧
      ∀ outputs, (q.load b).result = .ok outputs →
        (∀ xs, (q.loadAs b shape).result = .ok xs ↔
          List.Forall₂ (fun o x => shape.extract o = .ok x) outputs xs) ∧
        ∀ e, (q.loadAs b shape).result = .error e ↔
          ∃ before o after, outputs = before ++ o :: after ∧
            (∀ o' ∈ before, ∃ x, shape.extract o' = .ok x) ∧ shape.extract o = .error e := by
  refine ⟨exists_materialize_iff, fun outputs => ?_, fun e => materialize_eq_error_iff,
    fun e he => ?_, fun b shape => ⟨rfl, fun e he => ?_, fun outputs houtputs => ?_⟩⟩
  · simp only [materialize_singleton_iff]
    exact mapM_eq_ok_iff_forall₂
  · obtain ⟨-, row, -, -, -, hfails⟩ := materialize_eq_error_iff.mp he
    obtain ⟨_, _, rfl⟩ | ⟨_, _, rfl⟩ | ⟨_, _, rfl⟩ := hfails.cause <;> exact ⟨nofun, nofun⟩
  · rw [loadAs, Reply.andThen, he]
    rfl
  · have hresult : (q.loadAs b shape).result = outputs.mapM shape.extract := by
      rw [loadAs, Reply.andThen, houtputs]
      rfl
    rw [hresult]
    exact ⟨fun xs => mapM_eq_ok_iff_forall₂, fun e => mapM_eq_error_iff⟩

/-- Two cells of the second row are not taken and the third row is too narrow: the first of the
three is the failure. The first row alone is read, but its computed cell is no truth value. -/
theorem materialize_outcome_second :
    let m : Model := ⟨"M", "m", [⟨"a", .int .uint8, "a", rfl⟩, ⟨"b", .option .text, "b", rfl⟩],
      by decide⟩
    let q := (ofTable (.ofModel m)).select [.expr (.literal .null), .columns (.ofModel m)]
    let first : Row := [.text "x", .integer 255, .null]
    let rows : List Row := [first, [.null, .integer 256, .integer 0], [.null]]
    let cause : Error := .mapping (.outOfRange 256 .uint8)
    let b : Backend := { context := default, answer := fun _ => .ok [first], delay := fun _ _ => 0 }
    let shape : Shape := .tuple [.scalar .bool, .record m]
    q.materialize rows = .error cause ∧
      (∃ before row after, rows = before ++ row :: after ∧ (∀ r ∈ before, q.Readable r) ∧
        q.Fails row cause) ∧
      cause ≠ .mapping .rowEnded ∧ (∀ table field, cause ≠ .unknownField table field) ∧
      ∃ outputs, (q.load b).result = .ok outputs ∧
        (q.loadAs b shape).result = .error (.mapping (.cannotConvert .text .bool)) ∧
        ∃ before o after, outputs = before ++ o :: after ∧
          (∀ o' ∈ before, ∃ x, shape.extract o' = .ok x) ∧
          shape.extract o = .error (.mapping (.cannotConvert .text .bool)) := by
  intro m q first rows cause b shape
  obtain ⟨-, -, hfails, hdead, hload⟩ := materialize_outcome q rows
  have herror : q.materialize rows = .error cause := rfl
  have hresult : ∃ outputs, (q.load b).result = .ok outputs := ⟨_, rfl⟩
  have hshape : (q.loadAs b shape).result = .error (.mapping (.cannotConvert .text .bool)) := rfl
  obtain ⟨outputs, houtputs⟩ := hresult
  obtain ⟨-, -, hextract⟩ := hload b shape
  obtain ⟨hended, hunknown⟩ := hdead cause herror
  exact ⟨herror, (hfails cause).mp herror, hended, hunknown, outputs, houtputs, hshape,
    ((hextract outputs houtputs).2 _).mp hshape⟩

end Query

end SqlCompose
