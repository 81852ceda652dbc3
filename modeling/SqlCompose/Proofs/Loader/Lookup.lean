import SqlCompose.Proofs.Loader.Completion
import SqlCompose.Proofs.Loader.Statements
import SqlCompose.Proofs.Value.Rereading

/-!
# Finding the rows of a parent

The rows of a relation's query are looked up by the key that a parent has, and put away under the
key that their record has. The one is the value of the parent's source field. The other is the cell
of the target field as the field's type writes it back, and where the type alters the cell, the row
is put away under another key than the one it was asked for by. So whether the rows of parents are
found depends on the types of the two fields alone.

## Main definitions

* `Relation.FindsRows`: every row that belongs to a parent is found for the parent.

## Main results

* `Relation.findsRows_iff`: rows are found exactly if the type of the target field alters no value
  of the source field.
-/

namespace SqlCompose

/-! ### Records and rows by field -/

/-- In a list of fields with something for each, what is there for the field of a name is found. -/
private theorem find?_zip_map {α : Type} (fields : List Field) (g : Field → α) (name : String) :
    (fields.zip (fields.map g)).find? (·.1.name = name) =
      (fields.find? (·.name = name)).map fun f => (f, g f) := by
  rw [← List.map_prod_left_eq_zip, List.find?_map]
  rfl

theorem Model.cell?_map (m : Model) (g : Field → Value) (name : String) :
    m.cell? name (m.fields.map g) = (m.field? name).map g := by
  rw [cell?, find?_zip_map, Option.map_map]
  rfl

/-- The record that holds a scalar in one field and is blank otherwise. -/
def Record.only (m : Model) (f : Field) (s : Scalar) (h : f.type.admits s = true) : Record where
  model := m
  values := m.fields.map fun g => if g = f then s else g.type.blank
  admits_values := by
    generalize m.fields = fields
    induction fields with
    | nil => rfl
    | cons g fields ih =>
      rw [List.map_cons, Model.admits, ih, Bool.and_true]
      split
      · next hg => rwa [hg]
      · exact g.type.admits_blank

theorem Record.valueOf_only {m : Model} {f : Field} {s : Scalar} {name : String}
    (h : f.type.admits s = true) (hf : m.field? name = some f) :
    (only m f s h).valueOf name = some s.toValue := by
  have hfound : m.fields.find? (·.name = name) = some f := hf
  rw [valueOf, only, find?_zip_map, hfound]
  simp

/-- A blank is taken back from the value that it is written as. -/
private theorem ScalarType.exists_convert_blank (t : ScalarType) :
    ∃ s, t.convert t.blank.toValue = .ok s := by
  cases t with
  | int t => exact ⟨.int 0, if_pos (holds_zero t)⟩
  | any | double | single | bool | text | bytes | option _ => exact ⟨_, rfl⟩

/-- A row of which every field takes its cell is read as a record. -/
private theorem Fills.exists_of_convert (t : TableRef) {g : Field → Value}
    (h : ∀ f ∈ t.model.fields, ∃ s, f.type.convert (g f) = .ok s) :
    ∃ record, Fills t (t.model.fields.map g) record := by
  have hread (fields : List Field) (h : ∀ f ∈ fields, ∃ s, f.type.convert (g f) = .ok s) :
      ∃ ss, Record.readCells fields (fields.map g) = .ok ss := by
    induction fields with
    | nil => exact ⟨[], rfl⟩
    | cons f fields ih =>
      obtain ⟨⟨s, hs⟩, hfields⟩ := List.forall_mem_cons.mp h
      obtain ⟨ss, hss⟩ := ih hfields
      exact ⟨s :: ss, by rw [List.map_cons, Record.readCells, hs, hss]; rfl⟩
  obtain ⟨ss, hss⟩ := hread t.model.fields h
  refine ⟨⟨t.model, ss, Record.admits_readCells hss⟩, fills_of_ofCells ?_ ?_⟩
  · rw [List.length_map, TableRef.length_columns]
  · exact Record.ofCells_eq_ok_iff.mpr ⟨rfl, hss⟩

/-- The record that a row fills is what the columns of its table alone are read as. -/
private theorem Query.readRow_of_fills {q : Query} {t : TableRef} (hq : q.selected = [.columns t])
    {row : Row} {record : Record} (h : Fills t row record) :
    q.readRow row = .ok (.record record) := by
  have hslots : q.slots = [.table t] := by
    rw [slots, hq]
    rfl
  have hcells := (Record.assignEach_columns t h.length_eq).symm.trans h.assign_eq
  have htake : row.take t.columns.length = row := by rw [← h.length_eq, List.take_length]
  have hwidth : row.length = Slot.totalWidth [.table t] := h.length_eq
  rw [readRow, hslots, if_pos hwidth, Slot.read_table (Nat.le_of_eq h.length_eq.symm), htake,
    hcells]
  rfl

/-- The record is among those that are found for the parent. -/
def RelationMap.Finds (map : RelationMap) (parent record : Record) : Prop :=
  ∃ found, map.forParent parent = some found ∧ record ∈ found

namespace Relation

/-- Every row that belongs to a parent is found: when relations are loaded for parents, and every
row that answers the query of this one has the key of some parent in the target's field, then the
record that a row is read as is found for some parent, and for every parent with the key of the
row. -/
def FindsRows (r : Relation) : Prop :=
  ∀ (l : Loader) (b : Backend) (gather : Gather) (parents : List Record)
    (maps : List RelationMap) (place : Nat) (map : RelationMap) (q : Query) (c : Compiled)
    (rows : List Row),
    gather.Lawful → parents ≠ [] → (∀ parent ∈ parents, parent.model = r.source) →
    (l.load b r.source parents gather).result = .ok maps →
    l.relations[place]? = some r → maps[place]? = some map →
    r.batchQuery r.source parents = .ok (some q) → q.compile b.context = .ok c →
    b.answerAt place c = .ok rows →
    (∀ row ∈ rows, ∃ parent ∈ parents, ∃ key, parent.valueOf r.sourceField = some key ∧
      r.target.cell? r.targetField row = some key) →
    ∃ records, List.Forall₂ (fun row record => Fills (r.batchSource r.source) row record ∧
      (∃ parent ∈ parents, map.Finds parent record) ∧
      ∀ parent ∈ parents, parent.valueOf r.sourceField = r.target.cell? r.targetField row →
        map.Finds parent record) rows records

theorem outcome_eq_ok_iff {r : Relation} {ctx : Context}
    {answer : Compiled → Except Error (List Row)} {m : Model} {parents : List Record} {q : Query}
    (h : r.batchQuery m parents = .ok (some q)) {map : RelationMap} :
    r.outcome ctx answer m parents = .ok map ↔ ∃ c rows outputs, q.compile ctx = .ok c ∧
      answer c = .ok rows ∧ q.materialize rows = .ok outputs ∧
      RelationMap.ofOutputs r outputs = .ok map := by
  have houtcome : r.outcome ctx answer m parents = (do
      RelationMap.ofOutputs r (← q.materialize (← answer (← q.compile ctx)))) := by
    rw [outcome, h]
    rfl
  rw [houtcome]
  constructor
  · intro hmap
    obtain ⟨c, hc, hmap⟩ := bind_eq_ok_iff.mp hmap
    obtain ⟨rows, hrows, hmap⟩ := bind_eq_ok_iff.mp hmap
    obtain ⟨outputs, houtputs, hmap⟩ := bind_eq_ok_iff.mp hmap
    exact ⟨c, rows, outputs, hc, hrows, houtputs, hmap⟩
  · rintro ⟨c, rows, outputs, hc, hrows, houtputs, hmap⟩
    exact bind_eq_ok_iff.mpr ⟨c, hc, bind_eq_ok_iff.mpr ⟨rows, hrows,
      bind_eq_ok_iff.mpr ⟨outputs, houtputs, hmap⟩⟩⟩

/-- A row with the key of a parent is put away under that key, if the target alters no value of the
source. -/
theorem valueOf_eq_of_fills {r : Relation}
    (h : r.targetKey.type.alters r.sourceKey.type = false) {t : TableRef} (ht : t.model = r.target)
    {row : Row} {record parent : Record} (hrow : Fills t row record)
    (hparent : parent.model = r.source) {key : Value}
    (hkey : parent.valueOf r.sourceField = some key)
    (hcell : r.target.cell? r.targetField row = some key) :
    record.valueOf r.targetField = some key := by
  obtain ⟨f, x, hf, hx, rfl⟩ := Record.exists_of_valueOf hkey
  rw [hparent, field?_sourceKey] at hf
  obtain ⟨g, u, hg, hu, hvalue⟩ := hrow.exists_valueOf (by rwa [ht])
  rw [ht, field?_targetKey] at hg
  cases hf
  cases hg
  rw [hvalue, ScalarType.toValue_eq_of_convert h hx hu]

/-- Where the target alters no value of the source, every row is found. -/
theorem findsRows_of_alters {r : Relation}
    (h : r.targetKey.type.alters r.sourceKey.type = false) : r.FindsRows := by
  intro l b gather parents maps place map q c rows hgather hparents hmodel hload hr hmap hq hc hrows
    hkeys
  have houtcome : r.outcome b.context (b.answerAt place) r.source parents = .ok map := by
    have hat := congrArg (·[place]?) ((Loader.result_load_eq_ok_iff hgather).mp hload)
    simpa [Loader.outcomes, hr, hmap] using hat
  obtain ⟨c', rows', outputs, hc', hrows', houtputs, hgroups⟩ := (outcome_eq_ok_iff hq).mp houtcome
  cases hc.symm.trans hc'
  cases hrows.symm.trans hrows'
  obtain ⟨⟨predicate, hpredicate⟩, -⟩ := exists_of_batchQuery hparents hq
  cases hpredicate
  obtain ⟨records, rfl, hrelation, hcollects⟩ := RelationMap.collects_of_ofOutputs hgroups
  have hfills := Query.forall₂_fills_of_materialize (t := r.batchSource r.source) rfl houtputs
  refine ⟨records, forall₂_imp_of_mem hfills fun row hrow record hrecord hfill => ?_⟩
  obtain ⟨owner, howner, key, hkey, hcell⟩ := hkeys row hrow
  have hfinds : ∀ parent ∈ parents,
      parent.valueOf r.sourceField = r.target.cell? r.targetField row →
        map.Finds parent record := by
    intro parent hparent hvalue
    rw [hcell] at hvalue
    have hmem : record ∈ r.recordsOf key records := mem_recordsOf.mpr
      ⟨hrecord, valueOf_eq_of_fills h rfl hfill (hmodel parent hparent) hvalue hcell⟩
    refine ⟨r.recordsOf key records, ?_, hmem⟩
    rw [RelationMap.forParent, hrelation, hvalue, Option.bind_some, hcollects.get?_eq_some_iff,
      hrelation]
    exact ⟨List.ne_nil_of_mem hmem, rfl⟩
  exact ⟨hfill, ⟨owner, howner, hfinds owner howner (hkey.trans hcell.symm)⟩, hfinds⟩

/-- A parent and a row of which all that counts is the key: the row has it as the parent does, and
is put away under the key as the target writes it back. -/
theorem exists_parent_row {r : Relation} {x u : Scalar} (hx : r.sourceKey.type.admits x = true)
    (hu : r.targetKey.type.convert x.toValue = .ok u) :
    ∃ (parent : Record) (row : Row) (record : Record),
      parent.model = r.source ∧ parent.valueOf r.sourceField = some x.toValue ∧
      r.target.cell? r.targetField row = some x.toValue ∧
      Fills (r.batchSource r.source) row record ∧
      record.valueOf r.targetField = some u.toValue := by
  have hcells : ∀ f ∈ r.target.fields, ∃ s, f.type.convert
      (if f = r.targetKey then x.toValue else f.type.blank.toValue) = .ok s := by
    intro f _
    split
    · next hf => exact ⟨u, hf ▸ hu⟩
    · exact f.type.exists_convert_blank
  obtain ⟨record, hfills⟩ := Fills.exists_of_convert (r.batchSource r.source) hcells
  have hcell := r.target.cell?_map
    (fun f => if f = r.targetKey then x.toValue else f.type.blank.toValue) r.targetField
  rw [field?_targetKey, Option.map_some, if_pos rfl] at hcell
  obtain ⟨f, s, hf, hs, hvalue⟩ := hfills.exists_valueOf hcell
  cases r.field?_targetKey.symm.trans hf
  cases hu.symm.trans hs
  exact ⟨.only r.source r.sourceKey x hx, _, record, rfl,
    Record.valueOf_only hx r.field?_sourceKey, hcell, hfills, hvalue⟩

/-- When the relation alone is loaded for one parent and the only row has the parent's key, it is
lost if the parent has no records. -/
private theorem not_findsRows_of_lost {r : Relation} {parent : Record} {row : Row} {key : Value}
    {map : RelationMap} (hmodel : parent.model = r.source)
    (hkey : parent.valueOf r.sourceField = some key)
    (hcell : r.target.cell? r.targetField row = some key)
    (hload : (Loader.load ⟨[r]⟩ ⟨default, fun _ => .ok [], fun _ _ => 0, fun _ _ => .ok [row]⟩
      r.source [parent] .inRounds).result = .ok [map])
    (hlost : map.forParent parent = none) : ¬r.FindsRows := by
  have hmodels : ∀ p ∈ [parent], p.model = r.source := List.forall_mem_singleton.mpr hmodel
  have hparents : [parent] ≠ [] := List.cons_ne_nil _ _
  have hrejects := r.not_rejects_source [parent]
  have hc := (compile_keyQuery_of_not_rejects hmodels hparents hrejects).2 default
  intro hfinds
  obtain ⟨records, hrows⟩ := hfinds _ _ _ _ _ 0 _ _ _ [row] Gather.lawful_inRounds hparents hmodels
    hload rfl rfl (batchQuery_eq_ok hmodels hrejects) hc rfl
    (List.forall_mem_singleton.mpr ⟨parent, List.mem_cons_self, key, hkey, hcell⟩)
  obtain _ | ⟨⟨-, ⟨p, hp, found, hfound, -⟩, -⟩, -⟩ := hrows
  cases List.mem_singleton.mp hp
  rw [hlost] at hfound
  cases hfound

/-- Where the target alters a value of the source, a row with the value is lost. -/
theorem not_findsRows_of_alters {r : Relation}
    (h : r.targetKey.type.alters r.sourceKey.type = true) : ¬r.FindsRows := by
  obtain ⟨x, u, hx, hu, hne⟩ := ScalarType.alters_iff.mp h
  obtain ⟨parent, row, record, hmodel, hkey, hcell, hfills, hvalue⟩ := exists_parent_row hx hu
  have hmodels : ∀ p ∈ [parent], p.model = r.source := List.forall_mem_singleton.mpr hmodel
  have hrejects := r.not_rejects_source [parent]
  have hq := batchQuery_eq_ok hmodels hrejects
  have hc := (compile_keyQuery_of_not_rejects hmodels (List.cons_ne_nil _ _) hrejects).2 default
  have hread : (r.keyQuery r.source [parent]).materialize [row] = .ok [.record record] :=
    mapM_eq_ok_iff_forall₂.mpr (.cons (Query.readRow_of_fills rfl hfills) .nil)
  have hgroups : RelationMap.ofOutputs r [.record record] =
      .ok ((RelationMap.empty r).insert u.toValue record) :=
    bind_eq_ok_iff.mpr ⟨_, RelationMap.insertOutput_eq_ok_iff.mpr
      ⟨record, u.toValue, rfl, hvalue, rfl⟩, rfl⟩
  have hload : (Loader.load ⟨[r]⟩ ⟨default, fun _ => .ok [], fun _ _ => 0, fun _ _ => .ok [row]⟩
      r.source [parent] .inRounds).result =
        .ok [(RelationMap.empty r).insert u.toValue record] := by
    refine (Loader.result_load_eq_ok_iff Gather.lawful_inRounds).mpr (congrArg ([·]) ?_)
    exact (outcome_eq_ok_iff hq).mpr ⟨_, _, _, hc, rfl, hread, hgroups⟩
  refine not_findsRows_of_lost hmodel hkey hcell hload ?_
  have hrelation : ((RelationMap.empty r).insert u.toValue record).relation = r := rfl
  rw [RelationMap.forParent, hrelation, hkey, Option.bind_some, RelationMap.get?_insert,
    if_neg hne]
  rfl

/-- The rows of parents are found exactly if the type of the target field alters no value of the
source field. -/
theorem findsRows_iff (r : Relation) :
    r.FindsRows ↔ r.targetKey.type.alters r.sourceKey.type = false := by
  constructor
  · intro h
    by_contra halters
    exact not_findsRows_of_alters (Bool.not_eq_false _ ▸ halters) h
  · exact findsRows_of_alters

/-- An integer key and a target field of reals: the only row has the key of the only parent, and is
not found for it. -/
theorem not_findsRows_real :
    let user : Model := ⟨"User", "users", [⟨"id", .int .int64, "id", rfl⟩], by simp⟩
    let account : Model :=
      ⟨"Account", "accounts", [⟨"ratioX2", .option .double, "ratioX2", rfl⟩], by simp⟩
    let accounts : Relation := ⟨"accounts", user, account, "ratioX2", "id", rfl, rfl⟩
    let parent : Record := ⟨user, [.int 1], rfl⟩
    let row : Row := [.integer 1]
    let b : Backend := ⟨default, fun _ => .ok [], fun _ _ => 0, fun _ _ => .ok [row]⟩
    let one : Double := ⟨0x3ff0000000000000⟩
    let map : RelationMap := ⟨accounts, [(.real one, [⟨account, [.some (.double one)], rfl⟩])]⟩
    parent.valueOf "id" = some (.integer 1) ∧ account.cell? "ratioX2" row = some (.integer 1) ∧
      (Loader.load ⟨[accounts]⟩ b user [parent] .inRounds).result = .ok [map] ∧
      map.forParent parent = none ∧ ¬accounts.FindsRows := by
  intro user account accounts parent row b one map
  have hload : (Loader.load ⟨[accounts]⟩ b user [parent] .inRounds).result = .ok [map] :=
    (Loader.result_load_eq_ok_iff Gather.lawful_inRounds).mpr rfl
  have hlost : map.forParent parent = none := rfl
  exact ⟨rfl, rfl, hload, hlost, not_findsRows_of_lost rfl rfl rfl hload hlost⟩

end Relation

end SqlCompose
