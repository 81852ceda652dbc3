import SqlCompose.Proofs.Row.Fields
import SqlCompose.Proofs.Value.Conversion

/-!
# Rows written from records

A record is written field by field in the order of its model, and an item that was computed is its
own cell. A row that is written so, item by item along the parts of a select list, is read back as
the same items: every field takes its cell back, and the cells are as many as the row has to have.

## Main definitions

* `Record.written`, `Output.written`: the cells that a record and an item are written as.
* `Part.Takes`: the items that stand for a part of a select list.

## Main results

* `Record.ofCells_written`: a record is read back from the cells that it is written as.
* `Query.materialize_written`: rows are read back as the items that they are written from.
-/

namespace SqlCompose

namespace Record

/-- The cells of a record: the value of every field, in the order of its model. -/
def written (r : Record) : List Value := r.model.fieldNames.filterMap r.valueOf

/-- Fields of distinct names are found one by one. -/
private theorem filterMap_valueOf {fields : List Field} {values : List Scalar}
    (hnodup : (fields.map Field.name).Nodup) (h : Model.admits fields values = true) :
    (fields.map Field.name).filterMap (fun name =>
      ((fields.zip values).find? (·.1.name = name)).map (·.2.toValue)) =
      values.map Scalar.toValue := by
  fun_induction Model.admits fields values with
  | case1 => rfl
  | case2 f fields s values ih =>
    obtain ⟨hf, hnodup⟩ := List.nodup_cons.mp hnodup
    have hbehind : ∀ name ∈ fields.map Field.name,
        (((f :: fields).zip (s :: values)).find? (·.1.name = name)).map (·.2.toValue) =
          ((fields.zip values).find? (·.1.name = name)).map (·.2.toValue) := by
      intro name hname
      have hne : f.name ≠ name := fun heq => hf (heq ▸ hname)
      rw [List.zip_cons_cons, List.find?_cons_of_neg (by simpa using hne)]
    have hfirst : ((f :: fields).zip (s :: values)).find? (·.1.name = f.name) = some (f, s) := by
      rw [List.zip_cons_cons]
      exact List.find?_cons_of_pos (by simp)
    rw [List.map_cons, List.filterMap_cons_some (by rw [hfirst]; rfl),
      List.filterMap_congr hbehind, ih hnodup (Bool.and_eq_true_iff.mp h).2, List.map_cons]
  | case3 => cases h

theorem written_eq_cells (r : Record) : r.written = r.cells :=
  filterMap_valueOf r.model.nodup_names r.admits_values

theorem length_written (r : Record) : r.written.length = r.model.fields.length := by
  rw [written_eq_cells, cells, List.length_map, r.length_values]

/-- Fields take back the values that their scalars are written as. -/
theorem readCells_toValue {fields : List Field} {values : List Scalar}
    (hfields : ∀ f ∈ fields, f.type.isPlain = true) (h : Model.admits fields values = true)
    (hvalues : ∀ s ∈ values, s.Survives) :
    readCells fields (values.map Scalar.toValue) = .ok values := by
  fun_induction Model.admits fields values with
  | case1 => rfl
  | case2 f fields s values ih =>
    obtain ⟨hs, h⟩ := Bool.and_eq_true_iff.mp h
    obtain ⟨hf, hfields⟩ := List.forall_mem_cons.mp hfields
    obtain ⟨hx, hvalues⟩ := List.forall_mem_cons.mp hvalues
    rw [List.map_cons, readCells, ScalarType.convert_toValue f.isStorable_type hf hs hx,
      ih hfields h hvalues]
    rfl
  | case3 => cases h

/-- A record is read back from the cells that it is written as. -/
theorem ofCells_written {r : Record} (hfields : ∀ f ∈ r.model.fields, f.type.isPlain = true)
    (hvalues : ∀ s ∈ r.values, s.Survives) : ofCells r.model r.written = .ok r := by
  refine ofCells_eq_ok_iff.mpr ⟨rfl, ?_⟩
  rw [written_eq_cells]
  exact readCells_toValue hfields r.admits_values hvalues

end Record

/-- The cells that an item of a row is written as. Rows have no tuples for items. -/
def Output.written : Output → List Value
  | record r => r.written
  | value v => [v]
  | tuple _ => []

/-- The items that stand for a part of a select list: a value for a computed entry, and a record of
the model behind it for a table. -/
inductive Part.Takes : Part → Output → Prop
  | computed (e : Expr) (aliasName : Option String) (v : Value) :
      Takes (.computed e aliasName) (.value v)
  | columns (t : TableRef) (r : Record) (h : r.model = t.model) : Takes (.columns t) (.record r)

/-- An item is written as just the cells of its part. -/
theorem Part.Takes.length_written {part : Part} {item : Output} (h : part.Takes item) :
    item.written.length = part.slot.width := by
  cases h with
  | computed e aliasName v => rfl
  | columns t r hr =>
    rw [Output.written, r.length_written, hr, slot, Slot.width, TableRef.length_columns]

theorem length_flatMap_written {parts : List Part} {items : List Output}
    (h : List.Forall₂ Part.Takes parts items) :
    (items.flatMap Output.written).length = Slot.totalWidth (parts.map Part.slot) := by
  induction h with
  | nil => rfl
  | cons hitem _ ih =>
    rw [List.flatMap_cons, List.length_append, hitem.length_written, ih, List.map_cons,
      Slot.totalWidth]

/-- The items of a row are read back, part by part, from the cells that they are written as. -/
theorem read_flatMap_written {parts : List Part} {items : List Output}
    (h : List.Forall₂ Part.Takes parts items)
    (hfields : ∀ r, .record r ∈ items → ∀ f ∈ r.model.fields, f.type.isPlain = true)
    (hvalues : ∀ r, .record r ∈ items → ∀ s ∈ r.values, s.Survives) :
    Slot.read (parts.map Part.slot) (items.flatMap Output.written) = .ok items := by
  induction h with
  | nil => rfl
  | @cons part item parts items hitem _ ih =>
    have hrest := ih (fun r hr => hfields r (List.mem_cons_of_mem _ hr))
      fun r hr => hvalues r (List.mem_cons_of_mem _ hr)
    cases hitem with
    | computed e aliasName v =>
      rw [List.map_cons, Part.slot, List.flatMap_cons, Output.written, List.singleton_append,
        Slot.read, hrest]
      rfl
    | columns t r hr =>
      have hwidth : r.written.length = t.columns.length := by
        rw [r.length_written, hr, TableRef.length_columns]
      have hown : Record.ofCells t.model r.written = .ok r := by
        rw [← hr]
        exact Record.ofCells_written (hfields r List.mem_cons_self) (hvalues r List.mem_cons_self)
      have hcells : t.columns.length ≤ (r.written ++ items.flatMap Output.written).length := by
        rw [List.length_append, hwidth]
        exact Nat.le_add_right _ _
      rw [List.map_cons, Part.slot, List.flatMap_cons, Output.written, Slot.read_table hcells,
        ← hwidth, List.take_left, List.drop_left, hown, hrest]
      rfl

/-- A record among the items of a row is one of a model behind some table of the select list. -/
theorem exists_columns_of_mem {parts : List Part} {items : List Output}
    (h : List.Forall₂ Part.Takes parts items) {r : Record} (hr : .record r ∈ items) :
    ∃ t, .columns t ∈ parts ∧ r.model = t.model := by
  obtain ⟨part, hpart, hitem⟩ := exists_of_mem_of_forall₂ h _ hr
  obtain _ | ⟨t, _, hmodel⟩ := hitem
  exact ⟨t, hpart, hmodel⟩

theorem Output.ofItems_of_length {items : List Output} {n : Nat} (h : items.length = n) :
    if n = 1 then items = [ofItems items] else ofItems items = .tuple items := by
  subst h
  match items with
  | [] => exact rfl
  | [item] => exact rfl
  | _ :: _ :: _ =>
    rw [if_neg (by simp)]
    rfl

namespace Query

/-- A row that is written from items is read back as the items. -/
theorem readRow_written {q : Query} {items : List Output}
    (hfields : ∀ t, .columns t ∈ q.parts → ∀ f ∈ t.model.fields, f.type.isPlain = true)
    (hitems : List.Forall₂ Part.Takes q.parts items)
    (hvalues : ∀ r, .record r ∈ items → ∀ s ∈ r.values, s.Survives) :
    q.readRow (items.flatMap Output.written) = .ok (Output.ofItems items) := by
  have hplain : ∀ r, .record r ∈ items → ∀ f ∈ r.model.fields, f.type.isPlain = true := by
    intro r hr
    obtain ⟨t, ht, hmodel⟩ := exists_columns_of_mem hitems hr
    rw [hmodel]
    exact hfields t ht
  rw [readRow, slots_eq_parts, if_pos (length_flatMap_written hitems),
    read_flatMap_written hitems hplain hvalues]
  rfl

/-- Rows that are written from items are read back as those items, in order: as the item alone
where the select list has one part, and as the tuple of the items otherwise. -/
theorem materialize_written (q : Query)
    (hfields : ∀ t, .columns t ∈ q.parts → ∀ f ∈ t.model.fields, f.type.isPlain = true)
    (rows : List (List Output)) (hrows : ∀ items ∈ rows, List.Forall₂ Part.Takes q.parts items)
    (hvalues : ∀ items ∈ rows, ∀ r, .record r ∈ items → ∀ s ∈ r.values, s.Survives) :
    ∃ outputs, q.materialize (rows.map fun items => items.flatMap Output.written) = .ok outputs ∧
      List.Forall₂ (fun items o => if q.parts.length = 1 then items = [o] else o = .tuple items)
        rows outputs := by
  refine ⟨rows.map Output.ofItems, mapM_eq_ok_iff_forall₂.mpr ?_, ?_⟩
  · rw [List.forall₂_map_left_iff, List.forall₂_map_right_iff, List.forall₂_same]
    exact fun items hi => readRow_written hfields (hrows items hi) (hvalues items hi)
  · rw [List.forall₂_map_right_iff, List.forall₂_same]
    exact fun items hi => Output.ofItems_of_length (hrows items hi).length_eq.symm

/-- Rows of a computed entry and of two joined tables, of which one has a field of every kind that
null or a conversion could lose, and the other none. -/
theorem materialize_written_joined :
    let model : Model := ⟨"M", "m", [⟨"a", .option (.int .uint32), "a", rfl⟩, ⟨"b", .any, "b", rfl⟩,
      ⟨"c", .option .single, "c", rfl⟩, ⟨"d", .bytes, "d", rfl⟩], by decide⟩
    let blank : Model := ⟨"N", "n", [], by decide⟩
    let on := Join.on "n" "m" (.ofModel blank) fun _ _ => .ok (.literal (.bool true))
    let q := (ofTable (.ofModel model)).innerJoin on |>.select
      [.expr (.literal .null), .join on, .columns (.ofModel model)]
    let record (values : List Scalar) (h : Model.admits model.fields values = true) : Output :=
      .record ⟨model, values, h⟩
    let empty : Output := .record ⟨blank, [], rfl⟩
    let absent : List Scalar := [.none, .any .null, .none, .bytes []]
    let present : List Scalar :=
      [.some (.int 4294967295), .any (.bool true), .some (.single ⟨0x3dcccccd⟩), .bytes [0]]
    let rows := [[.value .null, empty, record absent rfl],
      [.value (.text ""), empty, record present rfl]]
    (∀ t, .columns t ∈ q.parts → ∀ f ∈ t.model.fields, f.type.isPlain = true) ∧
      (∀ items ∈ rows, List.Forall₂ Part.Takes q.parts items) ∧
      (∀ items ∈ rows, ∀ r, .record r ∈ items → ∀ s ∈ r.values, s.Survives) ∧
      ∃ outputs, q.materialize (rows.map fun items => items.flatMap Output.written) = .ok outputs ∧
        List.Forall₂ (fun items o => if q.parts.length = 1 then items = [o] else o = .tuple items)
          rows outputs := by
  intro model blank on q record empty absent present rows
  have hfields : ∀ t, .columns t ∈ q.parts → ∀ f ∈ t.model.fields, f.type.isPlain = true := by
    intro t ht
    obtain _ | ⟨_, ht⟩ := ht
    obtain _ | ⟨_, ht⟩ := ht
    · exact nofun
    · cases List.mem_singleton.mp ht
      decide
  have hrows : ∀ items ∈ rows, List.Forall₂ Part.Takes q.parts items := by
    have hparts {v : Value} {values : List Scalar} (h : Model.admits model.fields values = true) :
        List.Forall₂ Part.Takes q.parts [.value v, empty, record values h] :=
      .cons (.computed _ _ v) (.cons (.columns _ _ rfl) (.cons (.columns _ _ rfl) .nil))
    exact List.forall_mem_cons.mpr ⟨hparts rfl, List.forall_mem_singleton.mpr (hparts rfl)⟩
  have hvalues : ∀ items ∈ rows, ∀ r, .record r ∈ items → ∀ s ∈ r.values, s.Survives := by
    have hrow {v : Value} {values : List Scalar} (h : Model.admits model.fields values = true)
        (hs : ∀ s ∈ values, s.Survives) :
        ∀ r, .record r ∈ [.value v, empty, record values h] → ∀ s ∈ r.values, s.Survives := by
      intro r hr
      rcases List.mem_cons.mp hr with hr | hr
      · cases hr
      rcases List.mem_cons.mp hr with hr | hr
      · cases Output.record.inj hr
        exact nofun
      · cases Output.record.inj (List.mem_singleton.mp hr)
        exact hs
    have habsent : ∀ s ∈ absent, s.Survives := by simp [absent, Scalar.Survives]
    have hsingle : (⟨0x3dcccccd⟩ : Single).toDouble.toSingle = ⟨0x3dcccccd⟩ := by decide
    have hpresent : ∀ s ∈ present, s.Survives := by simp [present, Scalar.Survives, hsingle]
    exact List.forall_mem_cons.mpr
      ⟨hrow rfl habsent, List.forall_mem_singleton.mpr (hrow rfl hpresent)⟩
  exact ⟨hfields, hrows, hvalues, materialize_written q hfields rows hrows hvalues⟩

end Query

end SqlCompose
