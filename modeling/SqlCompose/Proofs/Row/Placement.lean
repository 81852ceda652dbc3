import SqlCompose.Proofs.Query.Clauses
import SqlCompose.Proofs.Sql.SelectList
import SqlCompose.Row.Layout

/-!
# Where the cells of a row go

A select list is written by one walk over its items and its join trees, and rows are read back by
another. Both follow the parts of the list, `Query.parts`: the computed entries, and the tables
with all their columns, depth first from the top. The entries that are written, the cells of a row
and the items that it is read as then run in step, part by part, and a table without columns is an
item at its place though it has neither entry nor cell.

## Main definitions

* `Part`, `Query.parts`: the parts of a select list.
* `Record.ofCells`: the record of a model that a run of cells stands for.
* `Record.assignEach`: cells taken into the fields of columns, one after the other.
* `Fills`, `Places`: the record that the cells of a table become, and entries, cells and items in
  step.

## Main results

* `Record.assignEach_columns`: reading cells in order is assigning them to the columns' fields.
* `places_read`: the items of a row are in step with its cells.
* `Query.places_readRow`: so are the items of every row that is read back, and the entries that are
  written.
-/

namespace SqlCompose

/-! ### Parts -/

/-- A part of a select list: a computed entry, or all columns of a table. -/
inductive Part where
  | computed (e : Expr) (aliasName : Option String)
  | columns (t : TableRef)

namespace Part

/-- The entries that a part is written as. -/
def entries : Part → List OutputItem
  | computed e aliasName => [⟨e, aliasName⟩]
  | columns t => t.columns.map fun c => ⟨.column c, none⟩

/-- The slot that the cells of a part are read into. -/
def slot : Part → Slot
  | computed _ _ => .computed
  | columns t => .table t

end Part

namespace Join

mutual

/-- The tables of a join tree, depth first from the top. -/
def parts : Join → List Part
  | ⟨_, _, right, _, children⟩ => .columns right :: partsAll children

/-- The tables of all the trees. -/
def partsAll : List Join → List Part
  | [] => []
  | j :: js => j.parts ++ partsAll js

end

mutual

theorem outputs_eq_parts : (j : Join) → j.outputs = j.parts.flatMap Part.entries
  | ⟨_, _, right, _, children⟩ => by
    rw [outputs, parts, List.flatMap_cons, outputsAll_eq_parts children]
    rfl

theorem outputsAll_eq_parts : (js : List Join) →
    outputsAll js = (partsAll js).flatMap Part.entries
  | [] => rfl
  | j :: js => by
    rw [outputsAll, partsAll, List.flatMap_append, outputs_eq_parts j, outputsAll_eq_parts js]

end

mutual

theorem slots_eq_parts : (j : Join) → j.slots = j.parts.map Part.slot
  | ⟨_, _, right, _, children⟩ => by
    rw [slots, parts, List.map_cons, slotsAll_eq_parts children]
    rfl

theorem slotsAll_eq_parts : (js : List Join) → slotsAll js = (partsAll js).map Part.slot
  | [] => rfl
  | j :: js => by
    rw [slotsAll, partsAll, List.map_append, slots_eq_parts j, slotsAll_eq_parts js]

end

end Join

/-- The parts that an item of a select list stands for. -/
def SelectItem.parts : SelectItem → List Part
  | expr e => [.computed e none]
  | aliased e aliasName => [.computed e (some aliasName)]
  | columns t => [.columns t]
  | join j => j.parts

theorem SelectItem.entries_eq_parts (item : SelectItem) :
    item.entries = item.parts.flatMap Part.entries := by
  cases item with
  | expr e | aliased e aliasName => rfl
  | columns t => exact (List.append_nil _).symm
  | join j => exact j.outputs_eq_parts

theorem SelectItem.slots_eq_parts (item : SelectItem) : item.slots = item.parts.map Part.slot := by
  cases item with
  | expr e | aliased e aliasName | columns t => rfl
  | join j => exact j.slots_eq_parts

namespace Query

/-- The parts of the select list of a query, in the order of the walk. -/
def parts (q : Query) : List Part := q.selected.flatMap SelectItem.parts

theorem items_eq_parts {q : Query} {items : List OutputItem} (h : q.outputs = .ok items) :
    items = q.parts.flatMap Part.entries := by
  rw [items_eq_flatMap_entries h, parts, List.flatMap_assoc]
  exact congrArg (q.selected.flatMap ·) (funext SelectItem.entries_eq_parts)

theorem slots_eq_parts (q : Query) : q.slots = q.parts.map Part.slot := by
  rw [slots, parts, List.map_flatMap]
  exact congrArg (q.selected.flatMap ·) (funext SelectItem.slots_eq_parts)

end Query

/-! ### Filling records -/

namespace Record

/-- The scalars of fields read from cells in order; the fields past the last cell stay blank. -/
def readCells : List Field → List Value → Except Error (List Scalar)
  | [], _ => .ok []
  | fs@(_ :: _), [] => .ok (fs.map fun f => f.type.blank)
  | f :: fs, v :: vs => do return (← f.type.convert v) :: (← readCells fs vs)

theorem admits_readCells :
    {fs : List Field} → {vs : List Value} → {ss : List Scalar} →
      readCells fs vs = .ok ss → Model.admits fs ss = true
  | [], _, ss, h => by simp only [readCells, Except.ok.injEq] at h; subst h; rfl
  | f :: fs, [], ss, h => by
    simp only [readCells, Except.ok.injEq] at h
    subst h
    exact admits_blank (f :: fs)
  | f :: fs, v :: vs, ss, h => by
    simp only [readCells, bind, Except.bind, pure, Except.pure] at h
    cases hc : f.type.convert v with
    | error e => simp [hc] at h
    | ok s =>
      cases hr : readCells fs vs with
      | error e => simp [hc, hr] at h
      | ok rs =>
        simp only [hc, hr, Except.ok.injEq] at h
        subst h
        simp [Model.admits, ScalarType.admits_of_convert hc, admits_readCells hr]

/-- The record of the model whose fields hold the cells, in order. -/
def ofCells (m : Model) (cells : List Value) : Except Error Record :=
  match h : readCells m.fields cells with
  | .ok values => .ok ⟨m, values, admits_readCells h⟩
  | .error e => .error e

theorem ofCells_eq_ok_iff {m : Model} {cells : List Value} {r : Record} :
    ofCells m cells = .ok r ↔ r.model = m ∧ readCells m.fields cells = .ok r.values := by
  simp only [ofCells]
  split
  · next values h =>
    constructor
    · intro hr
      cases hr
      exact ⟨rfl, h⟩
    · rintro ⟨hm, hv⟩
      exact congrArg Except.ok (Record.ext hm.symm (Except.ok.inj (h.symm.trans hv)))
  · next e h => simp [h]

theorem ofCells_eq_error_iff {m : Model} {cells : List Value} {e : Error} :
    ofCells m cells = .error e ↔ readCells m.fields cells = .error e := by
  simp only [ofCells]
  split <;> next h => simp [h]

/-- Takes cells into the fields of columns, one after the other. -/
def assignEach (r : Record) : List Column → List Value → Except Error Record
  | c :: cs, v :: vs => do assignEach (← r.assign c.field v) cs vs
  | _, _ => .ok r

/-- The field of a name is found behind fields of other names. -/
private theorem setField_append {table : String} {v : Value} {f : Field} {done fields : List Field}
    {before : List Scalar} (hlen : before.length = done.length)
    (hname : ∀ g ∈ done, g.name ≠ f.name) (s : Scalar) (after : List Scalar) :
    settled (setField table f.name v (done ++ f :: fields) (before ++ s :: after)) =
      (f.type.convert v).map fun u => before ++ u :: after := by
  induction done generalizing before with
  | nil =>
    obtain rfl : before = [] := List.eq_nil_of_length_eq_zero hlen
    rw [List.nil_append, List.nil_append, setField, if_pos rfl]
    cases f.type.convert v <;> rfl
  | cons g done ih =>
    cases before with
    | nil => cases hlen
    | cons b before =>
      have htail := ih (Nat.succ.inj hlen) fun g' hg' => hname g' (List.mem_cons_of_mem _ hg')
      rw [List.cons_append, List.cons_append, setField, if_neg (hname g List.mem_cons_self),
        settled_map, htail]
      cases f.type.convert v <;> rfl

/-- Assigning to a field behind filled ones takes the value into the field's type. -/
private theorem assign_append {r : Record} {f : Field} {done fields : List Field}
    {before after : List Scalar} {s : Scalar} (hfields : r.model.fields = done ++ f :: fields)
    (hvalues : r.values = before ++ s :: after) (hlen : before.length = done.length) (v : Value) :
    (r.assign f.name v).map values = (f.type.convert v).map fun u => before ++ u :: after := by
  have hname : ∀ g ∈ done, g.name ≠ f.name := by
    intro g hg hgf
    have hnodup := r.model.nodup_names
    rw [hfields, List.map_append, List.map_cons, List.nodup_append] at hnodup
    exact hnodup.2.2 g.name (List.mem_map_of_mem hg) f.name List.mem_cons_self hgf
  rw [map_values_assign, hfields, hvalues]
  exact setField_append hlen hname s after

theorem model_of_assign {r r' : Record} {name : String} {v : Value}
    (h : r.assign name v = .ok r') : r'.model = r.model :=
  (assign_eq_ok_iff.mp h).1

theorem model_of_assignEach {cs : List Column} {vs : List Value} {r r' : Record}
    (h : r.assignEach cs vs = .ok r') : r'.model = r.model := by
  fun_induction assignEach r cs vs with
  | case1 r c cs v vs ih =>
    obtain ⟨r₁, hr₁, h⟩ := bind_eq_ok_iff.mp h
    exact (ih r₁ h).trans (model_of_assign hr₁)
  | case2 r cs vs hne =>
    cases h
    rfl

/-- A record that is filled up to some field and blank from there on takes cells as they are read
in order, and fails as they do. -/
theorem assignEach_append (identifier : String) {fields done : List Field} {before : List Scalar}
    {cells : List Value} {r : Record} (hfields : r.model.fields = done ++ fields)
    (hvalues : r.values = before ++ fields.map fun f => f.type.blank)
    (hlen : before.length = done.length) (hcells : cells.length = fields.length) :
    (r.assignEach (fields.map (·.columnIn identifier)) cells).map values =
      (readCells fields cells).map (before ++ ·) := by
  induction fields generalizing r done before cells with
  | nil =>
    rw [List.map_nil, assignEach]
    · exact congrArg Except.ok hvalues
    · exact nofun
  | cons f fields ih =>
    cases cells with
    | nil => cases hcells
    | cons v vs =>
      have hstep := assign_append hfields hvalues hlen v
      have hassign : r.assignEach ((f :: fields).map (·.columnIn identifier)) (v :: vs) =
          (r.assign f.name v).bind fun r =>
            r.assignEach (fields.map (·.columnIn identifier)) vs := by
        rw [List.map_cons, assignEach]
        rfl
      have hread : readCells (f :: fields) (v :: vs) =
          (f.type.convert v).bind fun u => (readCells fields vs).map (u :: ·) := by
        rw [readCells]
        cases f.type.convert v <;> cases readCells fields vs <;> rfl
      rw [hassign, hread]
      rcases error_or_ok_of_map_eq hstep with ⟨e, hr, hu⟩ | ⟨r', u, hr, hu, hr'⟩
      · rw [hr, hu]
        rfl
      · have hvalues' : r'.values = (before ++ [u]) ++ fields.map fun f => f.type.blank := by
          rw [hr', List.append_assoc]
          rfl
        have hfields' : r'.model.fields = (done ++ [f]) ++ fields := by
          rw [model_of_assign hr, hfields, List.append_assoc, List.singleton_append]
        have hrest := ih hfields' hvalues' (by simp [hlen]) (Nat.succ.inj hcells)
        rw [hr, hu]
        refine hrest.trans ?_
        cases readCells fields vs with
        | error e => rfl
        | ok us => exact congrArg Except.ok (List.append_assoc before [u] us)

/-- Reading the cells of a table in order is assigning each of them to the field of its column. -/
theorem assignEach_columns (t : TableRef) {cells : List Value}
    (h : cells.length = t.columns.length) :
    (blank t.model).assignEach t.columns cells = ofCells t.model cells := by
  have hcells : cells.length = t.model.fields.length := h.trans t.length_columns
  have hvalues : ((blank t.model).assignEach t.columns cells).map values =
      (readCells t.model.fields cells).map ([] ++ ·) := by
    rw [t.map_columnIn]
    exact assignEach_append t.identifier (List.nil_append _).symm (List.nil_append _).symm rfl
      hcells
  rcases error_or_ok_of_map_eq hvalues with ⟨e, hr, hread⟩ | ⟨r, ss, hr, hread, hss⟩
  · rw [hr, ofCells_eq_error_iff.mpr hread]
  · rw [hr]
    exact (ofCells_eq_ok_iff.mpr ⟨model_of_assignEach hr, hread.trans (by rw [hss]; rfl)⟩).symm

/-- Where the cells do not run out, as many are taken as there are columns, and the others are
left. -/
theorem fill_eq_assignEach {r : Record} {cs : List Column} {vs : List Value}
    (h : cs.length ≤ vs.length) :
    r.fill cs vs = (r.assignEach cs (vs.take cs.length)).map (·, vs.drop cs.length) := by
  induction cs generalizing r vs with
  | nil =>
    rw [fill, assignEach]
    · rfl
    · exact nofun
  | cons c cs ih =>
    cases vs with
    | nil => cases h
    | cons v vs =>
      rw [fill, List.length_cons, List.take_succ_cons, List.drop_succ_cons, assignEach]
      cases r.assign c.field v with
      | error e => rfl
      | ok r' => exact ih (Nat.le_of_succ_le_succ h)

/-- Each field holds the cell of its place, taken into the field's type. -/
theorem convert_of_readCells {fields : List Field} {cells : List Value} {ss : List Scalar}
    (h : readCells fields cells = .ok ss) {k : Nat} {f : Field} {v : Value}
    (hf : fields[k]? = some f) (hv : cells[k]? = some v) :
    ∃ s, ss[k]? = some s ∧ f.type.convert v = .ok s := by
  induction fields generalizing cells ss k with
  | nil => cases hf
  | cons g fields ih =>
    cases cells with
    | nil => cases hv
    | cons w cells =>
      simp only [readCells, bind_eq_ok_iff] at h
      obtain ⟨s, hs, us, hus, h⟩ := h
      cases h
      cases k with
      | zero =>
        cases hf
        cases hv
        exact ⟨s, rfl, hs⟩
      | succ k => exact ih hus hf hv

end Record

/-- A table takes as many cells as it has columns, and reads them at once. -/
theorem Slot.read_table {t : TableRef} {slots : List Slot} {cells : List Value}
    (h : t.columns.length ≤ cells.length) :
    read (.table t :: slots) cells =
      (Record.ofCells t.model (cells.take t.columns.length) >>= fun r =>
        read slots (cells.drop t.columns.length) >>= fun items =>
          .ok (.record r :: items)) := by
  have htake : (cells.take t.columns.length).length = t.columns.length :=
    List.length_take_of_le h
  rw [read, Record.fill_eq_assignEach h, Record.assignEach_columns t htake]
  cases Record.ofCells t.model (cells.take t.columns.length) <;> rfl

/-! ### Entries, cells and items in step -/

/-- The record of a table that holds cells: each of them is assigned to the field of its column,
and is there as a scalar of the field's type. -/
structure Fills (t : TableRef) (cells : List Value) (r : Record) : Prop where
  model_eq : r.model = t.model
  length_eq : cells.length = t.columns.length
  assign_eq : (Record.blank t.model).assignEach t.columns cells = .ok r
  convert_eq : ∀ (k : Nat) f v, t.model.fields[k]? = some f → cells[k]? = some v →
    ∃ s, r.values[k]? = some s ∧ f.type.convert v = .ok s

theorem fills_of_ofCells {t : TableRef} {cells : List Value} {r : Record}
    (hlen : cells.length = t.columns.length) (h : Record.ofCells t.model cells = .ok r) :
    Fills t cells r where
  model_eq := (Record.ofCells_eq_ok_iff.mp h).1
  length_eq := hlen
  assign_eq := (Record.assignEach_columns t hlen).trans h
  convert_eq _ _ _ := Record.convert_of_readCells (Record.ofCells_eq_ok_iff.mp h).2

/-- The entries of a select list, the cells of a row and the items that it is read as, in step
along the parts of the list: a computed entry has one cell, which is an item as it is, and a table
has a cell for each of its columns, which fill a record that is the item. -/
inductive Places : List Part → List (List Token) → List Value → List Output → Prop
  | done : Places [] [] [] []
  | computed {parts entries cells items} (e : Expr) (aliasName : Option String) (v : Value)
      (h : Places parts entries cells items) :
      Places (.computed e aliasName :: parts) ((e.tokens ++ aliasTokens aliasName) :: entries)
        (v :: cells) (.value v :: items)
  | columns {t parts entries own cells r items} (hr : Fills t own r)
      (h : Places parts entries cells items) :
      Places (.columns t :: parts) (t.columns.map Column.tokens ++ entries) (own ++ cells)
        (.record r :: items)

/-- The entries of parts, as they are written. -/
def Part.written (parts : List Part) : List (List Token) :=
  (parts.flatMap entries).map OutputItem.tokens

theorem Part.written_computed (e : Expr) (aliasName : Option String) (parts : List Part) :
    written (.computed e aliasName :: parts) =
      (e.tokens ++ aliasTokens aliasName) :: written parts := rfl

theorem Part.written_columns (t : TableRef) (parts : List Part) :
    written (.columns t :: parts) = t.columns.map Column.tokens ++ written parts := by
  rw [← t.map_tokens_outputs, written, List.flatMap_cons, List.map_append]
  rfl

/-- A row asks for as many cells as entries are written. -/
theorem totalWidth_parts (parts : List Part) :
    Slot.totalWidth (parts.map Part.slot) = (Part.written parts).length := by
  induction parts with
  | nil => rfl
  | cons part parts ih =>
    rw [List.map_cons, Slot.totalWidth, ih]
    cases part with
    | computed e aliasName =>
      rw [Part.written_computed, List.length_cons, Nat.add_comm]
      rfl
    | columns t =>
      rw [Part.written_columns, List.length_append, List.length_map]
      rfl

/-- The items of a row of the width that is asked for are in step with its cells. -/
theorem places_read {parts : List Part} {row : List Value} {items : List Output}
    (hlen : row.length = Slot.totalWidth (parts.map Part.slot))
    (h : Slot.read (parts.map Part.slot) row = .ok items) :
    Places parts (Part.written parts) row items := by
  induction parts generalizing row items with
  | nil =>
    cases h
    obtain rfl : row = [] := List.eq_nil_of_length_eq_zero hlen
    exact .done
  | cons part parts ih =>
    cases part with
    | computed e aliasName =>
      rw [List.map_cons, Slot.totalWidth] at hlen
      cases row with
      | nil => cases (Nat.add_comm _ _).symm.trans hlen.symm
      | cons v row =>
        have hrow : row.length = Slot.totalWidth (parts.map Part.slot) :=
          Nat.succ.inj (hlen.trans (Nat.add_comm _ _))
        rw [List.map_cons, Part.slot, Slot.read] at h
        obtain ⟨rest, hrest, h⟩ := bind_eq_ok_iff.mp h
        cases h
        exact .computed e aliasName v (ih hrow hrest)
    | columns t =>
      rw [List.map_cons, Slot.totalWidth] at hlen
      have hwidth : t.columns.length + Slot.totalWidth (parts.map Part.slot) = row.length :=
        hlen.symm
      rw [List.map_cons, Part.slot, Slot.read_table (by omega)] at h
      obtain ⟨r, hr, h⟩ := bind_eq_ok_iff.mp h
      obtain ⟨rest, hrest, h⟩ := bind_eq_ok_iff.mp h
      cases h
      have hown : (row.take t.columns.length).length = t.columns.length := by
        rw [List.length_take]
        omega
      have hdrop : (row.drop t.columns.length).length =
          Slot.totalWidth (parts.map Part.slot) := by
        rw [List.length_drop]
        omega
      rw [Part.written_columns, ← List.take_append_drop t.columns.length row]
      exact .columns (fills_of_ofCells hown hr) (ih hdrop hrest)

namespace Query

theorem places_readRow {q : Query} {row : List Value} {o : Output} (h : q.readRow row = .ok o) :
    ∃ items, o = Output.ofItems items ∧ Places q.parts (Part.written q.parts) row items := by
  rw [readRow] at h
  split at h
  · next hlen =>
    cases hread : Slot.read q.slots row with
    | error e =>
      rw [hread] at h
      cases h
    | ok items =>
      rw [hread] at h
      cases h
      rw [slots_eq_parts] at hlen hread
      exact ⟨items, rfl, places_read hlen hread⟩
  · cases h

/-- The rows that are read back are read one by one. -/
theorem readRow_of_materialize {q : Query} {rows : List (List Value)} {outputs : List Output}
    (h : q.materialize rows = .ok outputs) : outputs.length = rows.length ∧
      ∀ (i : Nat) row o, rows[i]? = some row → outputs[i]? = some o → q.readRow row = .ok o := by
  rw [materialize] at h
  induction rows generalizing outputs with
  | nil =>
    cases h
    exact ⟨rfl, fun i row o hrow => nomatch hrow⟩
  | cons row rows ih =>
    obtain ⟨o, os, ho, hos, rfl⟩ := mapM_cons_eq_ok_iff.mp h
    obtain ⟨hlen, hrows⟩ := ih hos
    refine ⟨congrArg Nat.succ hlen, fun i row' o' hrow ho' => ?_⟩
    cases i with
    | zero =>
      cases hrow
      cases ho'
      exact ho
    | succ i => exact hrows i row' o' hrow ho'

end Query

end SqlCompose
