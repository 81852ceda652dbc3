import Mathlib.Data.List.Dedup
import SqlCompose.Proofs.Loader.Gathering
import SqlCompose.Proofs.Row.Placement

/-!
# The groups of a loaded relation

The rows of a relation's query are read back as records of the relation's target, and the records
are put under their keys one by one. What is held of the map after each record is an invariant of
the insertion: keys are told apart, the records of a key are those met so far that have it, in
their order, and all groups together hold every record met so far as often as it was met. A loaded
map is therefore a partition of the rows, whatever order they come in and whatever their keys are.

## Main definitions

* `Relation.recordsOf`: the records of a key, in order.
* `RelationMap.Collects`: the invariant of the insertion.
* `RelationMap.Partitions`: a map as a partition of records.

## Main results

* `RelationMap.Collects.insert`, `RelationMap.collects_of_ofOutputs`: one record, and all of them.
* `RelationMap.Collects.partitions`: a map that collects records partitions them.
* `Loader.load_partitions`: every map of a loaded batch partitions the rows of its query.
-/

namespace SqlCompose

namespace Relation

/-- The records, in order, whose target field reads as the key. -/
def recordsOf (r : Relation) (key : Value) (records : List Record) : List Record :=
  records.filter fun record => record.valueOf r.targetField = some key

theorem mem_recordsOf {r : Relation} {key : Value} {records : List Record} {record : Record} :
    record ∈ r.recordsOf key records ↔
      record ∈ records ∧ record.valueOf r.targetField = some key := by
  simp [recordsOf]

theorem recordsOf_eq_nil_iff {r : Relation} {key : Value} {records : List Record} :
    r.recordsOf key records = [] ↔
      ∀ record ∈ records, record.valueOf r.targetField ≠ some key := by
  simp [recordsOf]

theorem recordsOf_concat (r : Relation) (key : Value) (records : List Record) (record : Record) :
    r.recordsOf key (records ++ [record]) = r.recordsOf key records ++
      if record.valueOf r.targetField = some key then [record] else [] := by
  rw [recordsOf, recordsOf, List.filter_append]
  by_cases h : record.valueOf r.targetField = some key <;> simp [h]

end Relation

namespace RelationMap

/-! ### Inserting -/

theorem mem_keys_insertInto {key k : Value} {record : Record}
    {groups : List (Value × List Record)} :
    k ∈ (insertInto key record groups).map Prod.fst ↔ k = key ∨ k ∈ groups.map Prod.fst := by
  induction groups with
  | nil => simp [insertInto]
  | cons g groups ih =>
    obtain ⟨k', rs⟩ := g
    rw [insertInto]
    split
    · next h => simp [h]
    · rw [List.map_cons, List.mem_cons, ih, List.map_cons, List.mem_cons]
      exact or_left_comm

theorem nodup_keys_insertInto (key : Value) (record : Record)
    {groups : List (Value × List Record)} (h : (groups.map Prod.fst).Nodup) :
    ((insertInto key record groups).map Prod.fst).Nodup := by
  induction groups with
  | nil => exact List.nodup_singleton key
  | cons g groups ih =>
    obtain ⟨k, rs⟩ := g
    obtain ⟨hk, hgroups⟩ := List.nodup_cons.mp h
    rw [insertInto]
    split
    · exact List.nodup_cons.mpr ⟨hk, hgroups⟩
    · next hne =>
      refine List.nodup_cons.mpr ⟨fun hmem => ?_, ih hgroups⟩
      exact (mem_keys_insertInto.mp hmem).elim hne hk

/-- A record that is inserted is all that the groups together have more. -/
theorem insertInto_perm (key : Value) (record : Record) (groups : List (Value × List Record)) :
    ((insertInto key record groups).flatMap Prod.snd).Perm
      (groups.flatMap Prod.snd ++ [record]) := by
  induction groups with
  | nil => exact .refl _
  | cons g groups ih =>
    obtain ⟨k, rs⟩ := g
    rw [insertInto]
    split
    · have hlast : (rs ++ ([record] ++ groups.flatMap Prod.snd)).Perm
          (rs ++ (groups.flatMap Prod.snd ++ [record])) :=
        List.perm_append_comm.append_left rs
      simpa only [List.flatMap_cons, List.append_assoc] using hlast
    · simpa only [List.flatMap_cons, List.append_assoc] using ih.append_left rs

theorem insertOutput_eq_ok_iff {map map' : RelationMap} {o : Output} :
    map.insertOutput o = .ok map' ↔ ∃ record key, o = .record record ∧
      record.valueOf map.relation.targetField = some key ∧ map' = map.insert key record := by
  cases o with
  | record record =>
    cases hkey : record.valueOf map.relation.targetField with
    | none => simp [insertOutput, Output.expectRecord, hkey, bind, Except.bind]
    | some key =>
      simp [insertOutput, Output.expectRecord, hkey, bind, Except.bind, pure, Except.pure, eq_comm]
  | value v | tuple items =>
    simp [insertOutput, Output.expectRecord, Output.unexpected, bind, Except.bind]

/-- Where no key has two groups, what is found under a key is its group. -/
theorem get?_eq_some_iff_mem {map : RelationMap} (h : map.keys.Nodup) {key : Value}
    {rs : List Record} : map.get? key = some rs ↔ (key, rs) ∈ map.groups := by
  obtain ⟨r, groups⟩ := map
  simp only [keys, get?] at h ⊢
  induction groups with
  | nil => simp
  | cons g groups ih =>
    obtain ⟨k, rs'⟩ := g
    obtain ⟨hk, hgroups⟩ := List.nodup_cons.mp h
    by_cases hkey : k = key
    · subst hkey
      have hnot : (k, rs) ∉ groups := fun hmem => hk (List.mem_map.mpr ⟨(k, rs), hmem, rfl⟩)
      simp [hnot, eq_comm]
    · simpa [hkey, Ne.symm hkey] using ih hgroups

/-! ### Collecting records -/

/-- The map of the records met so far: no key has two groups, the group of a key is the records
that have it, and every record is in the groups as often as it was met. -/
structure Collects (map : RelationMap) (records : List Record) : Prop where
  nodup_keys : map.keys.Nodup
  get?_eq_some_iff : ∀ key rs, map.get? key = some rs ↔
    rs ≠ [] ∧ rs = map.relation.recordsOf key records
  perm : (map.groups.flatMap Prod.snd).Perm records

theorem collects_empty (r : Relation) : (empty r).Collects [] where
  nodup_keys := List.nodup_nil
  get?_eq_some_iff key rs := by simp [Relation.recordsOf]
  perm := .refl []

namespace Collects

variable {map : RelationMap} {records : List Record}

theorem getD_get? (h : map.Collects records) (key : Value) :
    (map.get? key).getD [] = map.relation.recordsOf key records := by
  cases hget : map.get? key with
  | some rs => exact ((h.get?_eq_some_iff key rs).mp hget).2
  | none =>
    by_contra hne
    have hsome := (h.get?_eq_some_iff key _).mpr ⟨Ne.symm hne, rfl⟩
    rw [hget] at hsome
    cases hsome

/-- One more record under its key keeps the map one of the records met. -/
theorem insert (h : map.Collects records) {key : Value} {record : Record}
    (hkey : record.valueOf map.relation.targetField = some key) :
    (map.insert key record).Collects (records ++ [record]) where
  nodup_keys := nodup_keys_insertInto key record h.nodup_keys
  get?_eq_some_iff other rs := by
    have hrelation : (map.insert key record).relation = map.relation := rfl
    rw [get?_insert, hrelation, Relation.recordsOf_concat, hkey, h.getD_get?]
    by_cases hother : key = other
    · rw [if_pos hother, if_pos (congrArg some hother), ← hother, Option.some.injEq]
      constructor
      · rintro rfl
        exact ⟨List.append_ne_nil_of_right_ne_nil _ (List.cons_ne_nil _ _), rfl⟩
      · exact fun hrs => hrs.2.symm
    · rw [if_neg hother, if_neg (fun heq => hother (Option.some.inj heq)), List.append_nil]
      exact h.get?_eq_some_iff other rs
  perm := (insertInto_perm key record map.groups).trans (h.perm.append_right [record])

/-- The groups are the records of their keys, none of them empty. -/
theorem group_eq (h : map.Collects records) {g : Value × List Record} (hg : g ∈ map.groups) :
    g.2 ≠ [] ∧ g.2 = map.relation.recordsOf g.1 records :=
  (h.get?_eq_some_iff g.1 g.2).mp ((get?_eq_some_iff_mem h.nodup_keys).mpr hg)

theorem valueOf_eq (h : map.Collects records) {g : Value × List Record} (hg : g ∈ map.groups)
    {record : Record} (hrecord : record ∈ g.2) :
    record.valueOf map.relation.targetField = some g.1 := by
  rw [(h.group_eq hg).2] at hrecord
  exact (Relation.mem_recordsOf.mp hrecord).2

theorem exists_group (h : map.Collects records) {record : Record} (hrecord : record ∈ records) :
    ∃ g ∈ map.groups, record ∈ g.2 :=
  List.mem_flatMap.mp (h.perm.mem_iff.mpr hrecord)

/-- The keys are the values of the records' target fields, each of them once. -/
theorem keys_perm (h : map.Collects records) : (map.keys.map some).Perm
    (records.map fun record => record.valueOf map.relation.targetField).dedup := by
  rw [List.perm_ext_iff_of_nodup (h.nodup_keys.map (fun _ _ => Option.some.inj))
    (List.nodup_dedup _)]
  intro key
  rw [List.mem_dedup, List.mem_map, List.mem_map]
  constructor
  · rintro ⟨k, hk, rfl⟩
    obtain ⟨g, hg, rfl⟩ := List.mem_map.mp hk
    obtain ⟨record, hrecord⟩ := List.exists_mem_of_ne_nil _ (h.group_eq hg).1
    exact ⟨record, h.perm.mem_iff.mp (List.mem_flatMap.mpr ⟨g, hg, hrecord⟩),
      h.valueOf_eq hg hrecord⟩
  · rintro ⟨record, hrecord, rfl⟩
    obtain ⟨g, hg, hmem⟩ := h.exists_group hrecord
    exact ⟨g.1, List.mem_map_of_mem hg, (h.valueOf_eq hg hmem).symm⟩

/-- Inserting outputs one by one keeps the map one of the records met. -/
theorem foldlM {outputs : List Output} {map' : RelationMap} (h : map.Collects records)
    (hmap' : outputs.foldlM insertOutput map = .ok map') :
    ∃ more, outputs = more.map .record ∧ map'.relation = map.relation ∧
      map'.Collects (records ++ more) := by
  induction outputs generalizing map records with
  | nil =>
    cases hmap'
    exact ⟨[], rfl, rfl, (List.append_nil records).symm ▸ h⟩
  | cons o outputs ih =>
    rw [List.foldlM_cons] at hmap'
    obtain ⟨next, hnext, hrest⟩ := bind_eq_ok_iff.mp hmap'
    obtain ⟨record, key, rfl, hkey, rfl⟩ := insertOutput_eq_ok_iff.mp hnext
    obtain ⟨more, rfl, hrelation, hcollects⟩ := ih (h.insert hkey) hrest
    refine ⟨record :: more, rfl, hrelation, ?_⟩
    rwa [List.append_assoc] at hcollects

end Collects

/-- Grouping outputs succeeds on records only, and collects all of them. -/
theorem collects_of_ofOutputs {r : Relation} {outputs : List Output} {map : RelationMap}
    (h : ofOutputs r outputs = .ok map) :
    ∃ records, outputs = records.map .record ∧ map.relation = r ∧ map.Collects records :=
  (collects_empty r).foldlM h

/-- The records fall into the groups of the map by the values of their target fields. -/
structure Partitions (map : RelationMap) (records : List Record) : Prop where
  /-- No group is empty. -/
  ne_nil : ∀ g ∈ map.groups, g.2 ≠ []
  /-- A group is the records of its key, in their order. -/
  eq_recordsOf : ∀ g ∈ map.groups, g.2 = map.relation.recordsOf g.1 records
  /-- Every record is in one group only. -/
  existsUnique_group : ∀ record ∈ records, ∃! g, g ∈ map.groups ∧ record ∈ g.2
  /-- The groups hold every record as often as it came, and nothing else. -/
  perm : (map.groups.flatMap Prod.snd).Perm records
  /-- A key that is found leads to its records. -/
  eq_of_get? : ∀ key rs, map.get? key = some rs → rs = map.relation.recordsOf key records
  /-- A key is not found if no record has it, and only then. -/
  get?_eq_none_iff : ∀ key, map.get? key = none ↔
    ∀ record ∈ records, record.valueOf map.relation.targetField ≠ some key
  /-- The size is the number of distinct values of the target field. -/
  size_eq : map.size =
    (records.map fun record => record.valueOf map.relation.targetField).dedup.length

/-- A map that collects records partitions them. -/
theorem Collects.partitions {map : RelationMap} {records : List Record}
    (h : map.Collects records) : map.Partitions records where
  ne_nil g hg := (h.group_eq hg).1
  eq_recordsOf g hg := (h.group_eq hg).2
  existsUnique_group record hrecord := by
    obtain ⟨g, hg, hmem⟩ := h.exists_group hrecord
    refine ⟨g, ⟨hg, hmem⟩, ?_⟩
    rintro g' ⟨hg', hmem'⟩
    -- both groups have the key of the record, and the key says what is in them
    have hkey : g'.1 = g.1 :=
      Option.some.inj ((h.valueOf_eq hg' hmem').symm.trans (h.valueOf_eq hg hmem))
    refine Prod.ext hkey ?_
    rw [(h.group_eq hg').2, (h.group_eq hg).2, hkey]
  perm := h.perm
  eq_of_get? key rs hrs := ((h.get?_eq_some_iff key rs).mp hrs).2
  get?_eq_none_iff key := by
    rw [← Relation.recordsOf_eq_nil_iff, ← h.getD_get? key]
    cases hget : map.get? key with
    | none => simp
    | some rs => simp [((h.get?_eq_some_iff key rs).mp hget).1]
  size_eq := by rw [← h.keys_perm.length_eq, List.length_map, keys, List.length_map, size]

/-- Groups of records of a model are the same when taken as records of that model. -/
theorem typed_eq_ok {map : RelationMap} {m : Model}
    (h : ∀ g ∈ map.groups, ∀ record ∈ g.2, record.model = m) : map.typed m = .ok map := by
  have hrecords : ∀ g ∈ map.groups, g.2.mapM (fun record => record.expect m) = .ok g.2 :=
    fun g hg => mapM_eq_ok_iff_forall₂.mpr (List.forall₂_same.mpr fun record hrecord =>
      if_pos (h g hg record hrecord))
  refine bind_eq_ok_iff.mpr ⟨map.groups, mapM_eq_ok_iff_forall₂.mpr ?_, rfl⟩
  exact List.forall₂_same.mpr fun g hg => bind_eq_ok_iff.mpr ⟨g.2, hrecords g hg, rfl⟩

end RelationMap

/-! ### Loading -/

namespace Relation

/-- The query of a relation for some parents selects the columns of the target, and every parent
has a key. -/
theorem exists_of_batchQuery {r : Relation} {m : Model} {parents : List Record}
    (hparents : parents ≠ []) {query : Option Query} (h : r.batchQuery m parents = .ok query) :
    (∃ predicate, query = some ((Query.ofTable (r.batchSource m)).filter predicate)) ∧
      ∀ parent ∈ parents, ∃ key, parent.valueOf r.sourceField = some key := by
  rw [batchQuery] at h
  split at h
  · cases h
  · split at h
    · next hempty => exact absurd (List.isEmpty_iff.mp hempty) hparents
    · obtain ⟨keys, hkeys, h⟩ := bind_eq_ok_iff.mp h
      obtain ⟨key, -, h⟩ := bind_eq_ok_iff.mp h
      obtain ⟨predicate, -, h⟩ := bind_eq_ok_iff.mp h
      refine ⟨⟨predicate, (Except.ok.inj h).symm⟩, fun parent hparent => ?_⟩
      obtain ⟨e, he⟩ := exists_of_mem_of_mapM hkeys parent hparent
      split at he
      · next key hkey => exact ⟨key, hkey⟩
      · cases he

end Relation

theorem model_eq_of_fills {t : TableRef} {rows : List Row} {records : List Record}
    (h : List.Forall₂ (Fills t) rows records) : ∀ record ∈ records, record.model = t.model := by
  intro record hrecord
  obtain ⟨row, -, hrow⟩ := exists_of_mem_of_forall₂ h record hrecord
  exact hrow.model_eq

/-- A row of the columns of one table is read as a record. -/
theorem Query.exists_record_of_readRow {q : Query} {t : TableRef} (hq : q.selected = [.columns t])
    {row : Row} {o : Output} (h : q.readRow row = .ok o) : ∃ r, o = .record r ∧ Fills t row r := by
  obtain ⟨items, rfl, hplaces⟩ := places_readRow h
  have hparts : q.parts = [.columns t] := by
    rw [parts, hq]
    rfl
  rw [hparts] at hplaces
  generalize Part.written [.columns t] = entries at hplaces
  cases hplaces with
  | columns hr hrest =>
    cases hrest with
    | done => exact ⟨_, rfl, (List.append_nil _).symm ▸ hr⟩

theorem Query.forall₂_fills_of_materialize {q : Query} {t : TableRef}
    (hq : q.selected = [.columns t]) {rows : List Row} {records : List Record}
    (h : q.materialize rows = .ok (records.map .record)) :
    List.Forall₂ (Fills t) rows records := by
  have hrecords := mapM_eq_ok_iff_forall₂.mp h
  rw [List.forall₂_map_right_iff] at hrecords
  refine hrecords.imp fun row record hrow => ?_
  obtain ⟨record', hrecord, hfills⟩ := exists_record_of_readRow hq hrow
  cases hrecord
  exact hfills

namespace Fetch

/-- A fetch of a query that comes to a map was answered with rows, which were read and grouped. -/
theorem exists_of_result_start {b : Backend} {place : Nat} {r : Relation} {q : Query}
    {map : RelationMap} (h : (start b place r (some q)).result = .ok map) :
    ∃ c rows outputs, q.compile b.context = .ok c ∧ b.answerAt place c = .ok rows ∧
      q.materialize rows = .ok outputs ∧ RelationMap.ofOutputs r outputs = .ok map := by
  rw [start] at h
  split at h
  · cases h
  · next c hc =>
    obtain ⟨outputs, hread, hmap⟩ := bind_eq_ok_iff.mp h
    obtain ⟨rows, hrows, houtputs⟩ := bind_eq_ok_iff.mp hread
    exact ⟨c, rows, outputs, hc, hrows, houtputs, hmap⟩

/-- The rows of a relation's query become records of its target, which the map partitions. -/
theorem exists_partitions {b : Backend} {place : Nat} {r : Relation} {t : TableRef} {q : Query}
    (hq : q.selected = [.columns t]) {map : RelationMap}
    (h : (start b place r (some q)).result = .ok map) :
    ∃ c rows records, q.compile b.context = .ok c ∧ b.answerAt place c = .ok rows ∧
      List.Forall₂ (Fills t) rows records ∧ map.relation = r ∧ map.Partitions records := by
  obtain ⟨c, rows, outputs, hc, hrows, hread, hmap⟩ := exists_of_result_start h
  obtain ⟨records, rfl, hrelation, hcollects⟩ := RelationMap.collects_of_ofOutputs hmap
  exact ⟨c, rows, records, hc, hrows, Query.forall₂_fills_of_materialize hq hread, hrelation,
    hcollects.partitions⟩

end Fetch

namespace Loader

/-- The maps of a batch come from the fetches of its relations, each at its place. -/
theorem forall₂_of_fetches {b : Backend} {m : Model} {parents : List Record}
    {relations : List Relation} {queries : List (Option Query)} {maps : List RelationMap}
    {place : Nat} (hqueries : List.Forall₂ (fun r q => r.batchQuery m parents = .ok q)
      relations queries)
    (h : (((relations.zip queries).zipIdx place).map fun ((r, q), place) =>
      Fetch.start b place r q).mapM Fetch.result = .ok maps) :
    List.Forall₂ (fun step map => ∃ q, step.1.batchQuery m parents = .ok q ∧
      (Fetch.start b step.2 step.1 q).result = .ok map) (relations.zipIdx place) maps := by
  induction hqueries generalizing place maps with
  | nil =>
    cases h
    exact .nil
  | cons hq _ ih =>
    obtain ⟨map, rest, hmap, hrest, rfl⟩ := mapM_cons_eq_ok_iff.mp h
    exact .cons ⟨_, hq, hmap⟩ (ih hrest)

/-- When relations are loaded for some parents, each of them has a map of its own, and the rows
that its query was answered with, read as records of its target, are partitioned by the map. What
belongs to a parent is found under the value of its source field, which every parent of the batch
has, and all records of the map are records of the target. -/
theorem load_partitions (l : Loader) (b : Backend) (m : Model) {parents : List Record}
    (hparents : parents ≠ []) {gather : Gather} (hgather : gather.Lawful)
    {maps : List RelationMap} (h : (l.load b m parents gather).result = .ok maps) :
    List.Forall₂ (fun (step : Relation × Nat) map => ∃ q c rows records,
        step.1.batchQuery m parents = .ok (some q) ∧ q.compile b.context = .ok c ∧
        b.answerAt step.2 c = .ok rows ∧
        List.Forall₂ (Fills (step.1.batchSource m)) rows records ∧
        map.relation = step.1 ∧ map.Partitions records ∧
        (∀ parent, map.forParent parent =
          (parent.valueOf step.1.sourceField).bind map.get?) ∧
        (∀ parent ∈ parents, ∃ key, parent.valueOf step.1.sourceField = some key) ∧
        map.typed step.1.target = .ok map)
      l.relations.zipIdx maps := by
  rw [load] at h
  split at h
  · cases h
  · next queries hqueries =>
    have hfetches := forall₂_of_fetches (mapM_eq_ok_iff_forall₂.mp hqueries)
      (mapM_eq_ok_iff_map.mpr (hgather.result_eq_ok_iff.mp h))
    refine hfetches.imp fun step map hmap => ?_
    obtain ⟨query, hquery, hresult⟩ := hmap
    obtain ⟨⟨predicate, rfl⟩, hkeys⟩ := Relation.exists_of_batchQuery hparents hquery
    obtain ⟨c, rows, records, hc, hrows, hfills, hrelation, hpartitions⟩ :=
      Fetch.exists_partitions rfl hresult
    refine ⟨_, c, rows, records, hquery, hc, hrows, hfills, hrelation, hpartitions,
      fun parent => ?_, hkeys, ?_⟩
    · rw [RelationMap.forParent, hrelation]
    · refine RelationMap.typed_eq_ok fun g hg record hrecord => model_eq_of_fills hfills record ?_
      exact hpartitions.perm.mem_iff.mp (List.mem_flatMap.mpr ⟨g, hg, hrecord⟩)

/-- Three rows, two of them under one key that is not a number, for two parents of which one has
no row. -/
theorem load_partitions_nan :
    let real (name : String) : Field := ⟨name, .double, name, rfl⟩
    let user : Model := ⟨"User", "users", [real "id"], by simp⟩
    let post : Model := ⟨"Post", "posts", [real "id", real "author"], by decide⟩
    let posts : Relation := ⟨"posts", user, post, "author", "id", rfl, rfl⟩
    let nan : Double := ⟨0x7ff8000000000000⟩
    let rows : List Row := [[.real ⟨1⟩, .real nan], [.real ⟨2⟩, .real ⟨7⟩], [.real ⟨3⟩, .real nan]]
    let b : Backend := ⟨.ofDialect .sqlite, fun _ => .ok [], fun _ _ => 0, fun _ _ => .ok rows⟩
    let parents : List Record := [⟨user, [.double nan], rfl⟩, ⟨user, [.double ⟨9⟩], rfl⟩]
    let record (id author : Double) : Record := ⟨post, [.double id, .double author], rfl⟩
    let map : RelationMap := ⟨posts, [(.real nan, [record ⟨1⟩ nan, record ⟨3⟩ nan]),
      (.real ⟨7⟩, [record ⟨2⟩ ⟨7⟩])]⟩
    parents ≠ [] ∧ Gather.inRounds.Lawful ∧
      (Loader.load ⟨[posts]⟩ b user parents .inRounds).result = .ok [map] ∧
      ∃ q c records, posts.batchQuery user parents = .ok (some q) ∧
        q.compile b.context = .ok c ∧ b.answerAt 0 c = .ok rows ∧
        List.Forall₂ (Fills (posts.batchSource user)) rows records ∧ map.Partitions records ∧
        (∀ parent ∈ parents, ∃ key, parent.valueOf "id" = some key) ∧
        map.typed post = .ok map := by
  intro real user post posts nan rows b parents record map
  have hparents : parents ≠ [] := List.cons_ne_nil _ _
  have hload : (Loader.load ⟨[posts]⟩ b user parents .inRounds).result = .ok [map] :=
    Gather.lawful_inRounds.result_eq_ok_iff.mpr rfl
  refine ⟨hparents, Gather.lawful_inRounds, hload, ?_⟩
  obtain - | ⟨⟨q, c, _, records, hq, hc, hrows, hfills, -, hpartitions, -, hkeys, htyped⟩, -⟩ :=
    load_partitions ⟨[posts]⟩ b user hparents Gather.lawful_inRounds hload
  cases hrows
  exact ⟨q, c, records, hq, hc, rfl, hfills, hpartitions, hkeys, htyped⟩

end Loader

end SqlCompose
