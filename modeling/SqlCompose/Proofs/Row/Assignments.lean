import Mathlib.Data.List.Nodup
import SqlCompose.Proofs.Numeric.Widening
import SqlCompose.Proofs.Row.Fields
import SqlCompose.Proofs.Value.Conversion

/-!
# Assignments to the fields of a record

A record that starts blank and is assigned to, now with success and now without, is what the
successful assignments make of it. Each field holds the last value that its type has taken, written
back as the type writes it, and the blank of its type where there was none. What a field holds is
something that its type once took or the blank, and either is taken again from the value that it is
written as, so that assigning to a field what it is written as changes nothing.

## Main definitions

* `Assignment`, `Record.after`, `Record.afterAll`: assignments, and the record that they leave.
* `Record.assignAll`: assignments that have to succeed one and all.
* `Record.held`: the scalar in the field of a name.
* `Record.Taken`: records of which every field holds something that its type takes.

## Main results

* `ScalarType.convert_again`: a type takes back what it has made of a value.
* `Record.exists_assign_iff`, `Record.held_of_assign`: when an assignment succeeds, and what it
  leaves in every field.
* `Record.held_afterAll`: each field holds what its type took last.
* `Record.Taken.assign_valueOf`: a field takes back the value that it is written as.
* `Record.assignments_outcome`: a record is what its successful assignments make of it.
-/

namespace SqlCompose

/-! ### Values that were taken -/

namespace ScalarType

/-- What is made of a value that is not null is not written as null. -/
theorem toValue_ne_null_of_convert {t : ScalarType} {v : Value} {s : Scalar} (hv : v ≠ .null)
    (h : t.convert v = .ok s) : s.toValue ≠ .null := by
  induction t generalizing s with
  | any =>
    cases h
    exact hv
  | option t ih =>
    rw [convert_option hv] at h
    obtain ⟨u, hu, rfl⟩ := map_eq_ok_iff.mp h
    have hinner : u.toValue ≠ .null := ih hu
    exact hinner
  | int t | double | single | bool | text | bytes =>
    have hadmits := admits_of_convert h
    cases s with
    | any v | none | some u => cases hadmits
    | _ => exact Value.noConfusion

/-- The integer that was taken from a value is taken again from the integer value of it. -/
private theorem toInteger_again {v : Value} {n : Int} (h : toInteger v = .ok n) :
    toInteger (.integer (.ofInt n)) = .ok n := by
  cases v with
  | integer k =>
    cases h
    rw [toInteger, Int64.ofInt_toInt]
  | bool b =>
    cases h
    cases b <;> rfl
  | null | real x | text s | blob bs => cases h

/-- What a type has made of a value is what it makes of the value that is written back. -/
theorem convert_again {t : ScalarType} {v : Value} {s : Scalar} (h : t.convert v = .ok s) :
    t.convert s.toValue = .ok s := by
  induction t generalizing s with
  | any =>
    cases h
    rfl
  | int t =>
    obtain ⟨n, hn, h⟩ := bind_eq_ok_iff.mp h
    split at h
    · next hholds =>
      cases h
      rw [Scalar.toValue, convert, toInteger_again hn]
      exact if_pos hholds
    · cases h
  | double =>
    obtain ⟨x, hx, h⟩ := bind_eq_ok_iff.mp h
    cases h
    rfl
  | single =>
    -- the double was rounded once, and widening what it was rounded to loses nothing
    obtain ⟨x, hx, h⟩ := bind_eq_ok_iff.mp h
    cases h
    exact congrArg (Except.ok ∘ Scalar.single) x.toSingle_toDouble_toSingle
  | bool =>
    simp only [convert] at h
    split at h <;> cases h
    rfl
  | text | bytes =>
    cases v <;> cases h
    all_goals rfl
  | option t ih =>
    by_cases hv : v = .null
    · subst hv
      cases h
      rfl
    · rw [convert_option hv] at h
      obtain ⟨u, hu, rfl⟩ := map_eq_ok_iff.mp h
      rw [Scalar.toValue, convert_option (toValue_ne_null_of_convert hv hu), ih hu]
      rfl

/-- The blank of a type is what the type makes of some value. -/
theorem exists_convert_eq_blank (t : ScalarType) : ∃ v, t.convert v = .ok t.blank := by
  cases t with
  | any | option t => exact ⟨.null, rfl⟩
  | int t => exact ⟨.integer 0, if_pos (holds_zero t)⟩
  | double => exact ⟨.real .zero, rfl⟩
  | single => exact ⟨.real .zero, rfl⟩
  | bool => exact ⟨.bool false, rfl⟩
  | text => exact ⟨.text "", rfl⟩
  | bytes => exact ⟨.blob [], rfl⟩

end ScalarType

/-! ### What fields hold -/

/-- The scalar at the place of the field of a name. -/
def heldAt (fields : List Field) (values : List Scalar) (name : String) : Option Scalar :=
  ((fields.zip values).find? (·.1.name = name)).map (·.2)

private theorem heldAt_cons (f : Field) (fields : List Field) (s : Scalar) (values : List Scalar)
    (name : String) : heldAt (f :: fields) (s :: values) name =
      if f.name = name then some s else heldAt fields values name := by
  rw [heldAt, List.zip_cons_cons, List.find?_cons]
  split <;> simp_all [heldAt]

/-- A value that was taken into a field is one that the field's type takes. What was made of it is
left in the field, and every other field is as it was. -/
private theorem heldAt_of_setField {table name : String} {v : Value} {fields : List Field}
    {values values' : List Scalar}
    (h : Record.settled (Record.setField table name v fields values) = .ok values') :
    ∃ f ∈ fields, f.name = name ∧ ∃ s, f.type.convert v = .ok s ∧
      ∀ other, heldAt fields values' other =
        if other = name then some s else heldAt fields values other := by
  fun_induction Record.setField table name v fields values generalizing values' with
  | case1 f fields u values hname s hs =>
    cases h
    refine ⟨f, List.mem_cons_self, hname, s, hs, fun other => ?_⟩
    rw [heldAt_cons, heldAt_cons, hname]
    by_cases hother : other = name
    · rw [if_pos hother.symm, if_pos hother]
    · rw [if_neg (Ne.symm hother), if_neg hother, if_neg (Ne.symm hother)]
  | case2 => cases h
  | case3 f fields u values hname ih =>
    rw [Record.settled_map] at h
    obtain ⟨rest, hrest, rfl⟩ := map_eq_ok_iff.mp h
    obtain ⟨g, hg, hgname, s, hs, hheld⟩ := ih hrest
    refine ⟨g, List.mem_cons_of_mem f hg, hgname, s, hs, fun other => ?_⟩
    rw [heldAt_cons, heldAt_cons, hheld]
    by_cases hother : other = name
    · rw [if_neg (hother ▸ hname), if_pos hother, if_pos hother]
    · rw [if_neg hother, if_neg hother]
  | case4 => cases h

/-- A value is taken into a field whose type takes it. -/
private theorem exists_setField (table : String) {f : Field} {v : Value} {s : Scalar}
    {fields : List Field} {values : List Scalar} (hnodup : (fields.map Field.name).Nodup)
    (hlength : values.length = fields.length) (hf : f ∈ fields) (hs : f.type.convert v = .ok s) :
    ∃ values', Record.settled (Record.setField table f.name v fields values) = .ok values' := by
  induction fields generalizing values with
  | nil => cases hf
  | cons g fields ih =>
    cases values with
    | nil => cases hlength
    | cons u values =>
      obtain ⟨hg, hnodup⟩ := List.nodup_cons.mp hnodup
      rw [Record.setField]
      obtain rfl | hf := List.mem_cons.mp hf
      · exact ⟨s :: values, by rw [if_pos rfl, hs]; rfl⟩
      · have hne : g.name ≠ f.name := fun h => hg (h ▸ List.mem_map_of_mem hf)
        obtain ⟨values', hvalues'⟩ := ih hnodup (Nat.succ.inj hlength) hf
        exact ⟨u :: values', by rw [if_neg hne, Record.settled_map, hvalues']; rfl⟩

/-- Scalars for fields of distinct names are told apart by what the fields hold. -/
private theorem eq_of_heldAt {fields : List Field} {values values' : List Scalar}
    (hnodup : (fields.map Field.name).Nodup) (hlength : values.length = fields.length)
    (hlength' : values'.length = fields.length)
    (h : ∀ f ∈ fields, heldAt fields values f.name = heldAt fields values' f.name) :
    values = values' := by
  induction fields generalizing values values' with
  | nil => rw [List.eq_nil_of_length_eq_zero hlength, List.eq_nil_of_length_eq_zero hlength']
  | cons f fields ih =>
    cases values with
    | nil => cases hlength
    | cons s values =>
      cases values' with
      | nil => cases hlength'
      | cons s' values' =>
        obtain ⟨hf, hnodup⟩ := List.nodup_cons.mp hnodup
        obtain ⟨hfirst, hrest⟩ := List.forall_mem_cons.mp h
        rw [heldAt_cons, heldAt_cons, if_pos rfl, if_pos rfl, Option.some.injEq] at hfirst
        have htail : ∀ g ∈ fields, heldAt fields values g.name = heldAt fields values' g.name := by
          intro g hg
          have hne : f.name ≠ g.name := fun h => hf (h ▸ List.mem_map_of_mem hg)
          have hheld := hrest g hg
          rwa [heldAt_cons, heldAt_cons, if_neg hne, if_neg hne] at hheld
        rw [hfirst, ih hnodup (Nat.succ.inj hlength) (Nat.succ.inj hlength') htail]

private theorem heldAt_blank {fields : List Field} (hnodup : (fields.map Field.name).Nodup)
    {f : Field} (hf : f ∈ fields) :
    heldAt fields (fields.map fun g => g.type.blank) f.name = some f.type.blank := by
  induction fields with
  | nil => cases hf
  | cons g fields ih =>
    obtain ⟨hg, hnodup⟩ := List.nodup_cons.mp hnodup
    rw [List.map_cons, heldAt_cons]
    obtain rfl | hf := List.mem_cons.mp hf
    · rw [if_pos rfl]
    · have hne : g.name ≠ f.name := fun h => hg (h ▸ List.mem_map_of_mem hf)
      rw [if_neg hne, ih hnodup hf]

/-- A model has one field of a name. -/
theorem Model.eq_of_name_eq {m : Model} {f g : Field} (hf : f ∈ m.fields) (hg : g ∈ m.fields)
    (h : f.name = g.name) : f = g :=
  List.inj_on_of_nodup_map m.nodup_names hf hg h

namespace Record

/-- The scalar in the field of a name. -/
def held (r : Record) (name : String) : Option Scalar := heldAt r.model.fields r.values name

theorem valueOf_eq_held (r : Record) (name : String) :
    r.valueOf name = (r.held name).map Scalar.toValue := by
  rw [valueOf, held, heldAt, Option.map_map]
  rfl

theorem held_blank {m : Model} {f : Field} (hf : f ∈ m.fields) :
    (blank m).held f.name = some f.type.blank :=
  heldAt_blank m.nodup_names hf

/-- Records of one model are equal if their fields hold the same. -/
theorem eq_of_held {r t : Record} (hmodel : t.model = r.model)
    (h : ∀ f ∈ r.model.fields, t.held f.name = r.held f.name) : t = r := by
  refine Record.ext hmodel (eq_of_heldAt r.model.nodup_names ?_ r.length_values fun f hf => ?_)
  · rw [t.length_values, hmodel]
  · have hheld := h f hf
    rwa [held, hmodel] at hheld

/-- An assignment takes a value into the field of the name and leaves what was made of it there,
and every other field as it was. -/
theorem held_of_assign {r t : Record} {name : String} {v : Value} (h : r.assign name v = .ok t) :
    ∃ f ∈ r.model.fields, f.name = name ∧ ∃ s, f.type.convert v = .ok s ∧
      ∀ other, t.held other = if other = name then some s else r.held other := by
  obtain ⟨hmodel, hset⟩ := assign_eq_ok_iff.mp h
  obtain ⟨f, hf, hname, s, hs, hheld⟩ := heldAt_of_setField hset
  refine ⟨f, hf, hname, s, hs, fun other => ?_⟩
  rw [held, hmodel]
  exact hheld other

/-- An assignment succeeds exactly if the name is one of the model's fields and the field's type
takes the value. -/
theorem exists_assign_iff {r : Record} {name : String} {v : Value} :
    (∃ t, r.assign name v = .ok t) ↔
      ∃ f ∈ r.model.fields, f.name = name ∧ ∃ s, f.type.convert v = .ok s := by
  constructor
  · rintro ⟨t, h⟩
    obtain ⟨f, hf, hname, s, hs, -⟩ := held_of_assign h
    exact ⟨f, hf, hname, s, hs⟩
  · rintro ⟨f, hf, rfl, s, hs⟩
    obtain ⟨values, hset⟩ := exists_setField r.model.table r.model.nodup_names r.length_values
      hf hs
    obtain ⟨t, ht, -⟩ := map_eq_ok_iff.mp ((map_values_assign r f.name v).trans hset)
    exact ⟨t, ht⟩

end Record

/-! ### Runs of assignments -/

/-- A value that is assigned to the field of a name. -/
structure Assignment where
  name : String
  value : Value
  deriving DecidableEq, Repr

/-- What a field takes of an assignment: nothing if it is one to another field, or one of a value
that the field's type does not take. -/
def Field.taken? (f : Field) (a : Assignment) : Option Scalar :=
  if a.name = f.name then (f.type.convert a.value).toOption else none

/-- Whether a field of the model takes the assignment. -/
def Model.takes (m : Model) (a : Assignment) : Bool := m.fields.any fun f => (f.taken? a).isSome

theorem Field.taken?_eq_some_iff {f : Field} {a : Assignment} {s : Scalar} :
    f.taken? a = some s ↔ f.name = a.name ∧ f.type.convert a.value = .ok s := by
  rw [taken?]
  by_cases h : a.name = f.name
  · rw [if_pos h, and_iff_right h.symm]
    cases f.type.convert a.value <;> simp [Except.toOption]
  · rw [if_neg h]
    exact iff_of_false nofun fun hs => h hs.1.symm

theorem Model.takes_iff {m : Model} {a : Assignment} : m.takes a = true ↔
    ∃ f ∈ m.fields, f.name = a.name ∧ ∃ s, f.type.convert a.value = .ok s := by
  simp only [takes, List.any_eq_true, Option.isSome_iff_exists, Field.taken?_eq_some_iff,
    exists_and_left]

namespace Record

/-- The record after an assignment, whether it has succeeded or not. -/
def after (r : Record) (a : Assignment) : Record := (r.set a.name a.value).2

/-- The record after assignments, of which some may fail. -/
def afterAll (r : Record) (calls : List Assignment) : Record := calls.foldl after r

/-- The record after assignments, of which none may fail. -/
def assignAll (r : Record) (calls : List Assignment) : Except Error Record :=
  calls.foldlM (fun t a => t.assign a.name a.value) r

theorem after_of_ok {r t : Record} {a : Assignment} (h : r.assign a.name a.value = .ok t) :
    r.after a = t := by
  obtain ⟨_, -, ht⟩ := map_eq_ok_iff.mp h
  exact ht

/-- An assignment that fails leaves the record as it is. -/
theorem after_of_error {r : Record} {a : Assignment} {e : Error}
    (h : r.assign a.name a.value = .error e) : r.after a = r :=
  set_of_error (assign_eq_error_iff.mp h)

theorem model_after (r : Record) (a : Assignment) : (r.after a).model = r.model := by
  cases h : r.assign a.name a.value with
  | error e => rw [after_of_error h]
  | ok t => rw [after_of_ok h, model_of_assign h]

theorem model_afterAll (r : Record) (calls : List Assignment) :
    (r.afterAll calls).model = r.model := by
  induction calls generalizing r with
  | nil => rfl
  | cons a calls ih => exact (ih (r.after a)).trans (r.model_after a)

/-- After an assignment a field holds what it has taken, or else what it held. -/
theorem held_after {r : Record} {f : Field} (hf : f ∈ r.model.fields) (a : Assignment) :
    (r.after a).held f.name = (f.taken? a).or (r.held f.name) := by
  cases h : r.assign a.name a.value with
  | error e =>
    -- had the field taken the value, the assignment would have succeeded
    have hnone : f.taken? a = none := by
      refine Option.eq_none_iff_forall_ne_some.mpr fun s hs => ?_
      obtain ⟨hname, hs⟩ := Field.taken?_eq_some_iff.mp hs
      obtain ⟨t, ht⟩ := exists_assign_iff.mpr ⟨f, hf, hname, s, hs⟩
      cases h.symm.trans ht
    rw [after_of_error h, hnone, Option.none_or]
  | ok t =>
    obtain ⟨g, hg, hname, s, hs, hheld⟩ := held_of_assign h
    rw [after_of_ok h, hheld]
    by_cases hfa : f.name = a.name
    · obtain rfl := Model.eq_of_name_eq hf hg (hfa.trans hname.symm)
      rw [if_pos hfa, Field.taken?_eq_some_iff.mpr ⟨hname, hs⟩, Option.some_or]
    · rw [if_neg hfa, Field.taken?, if_neg (Ne.symm hfa), Option.none_or]

/-- After assignments a field holds what it has taken last, or else what it held before them. -/
theorem held_afterAll {r : Record} {f : Field} (hf : f ∈ r.model.fields)
    (calls : List Assignment) :
    (r.afterAll calls).held f.name = (calls.filterMap f.taken?).getLast?.or (r.held f.name) := by
  induction calls generalizing r with
  | nil => rfl
  | cons a calls ih =>
    have hafter : f ∈ (r.after a).model.fields := (r.model_after a).symm ▸ hf
    have hrest := ih hafter
    rw [held_after hf] at hrest
    refine hrest.trans ?_
    cases h : f.taken? a with
    | none => rw [List.filterMap_cons_none h, Option.none_or]
    | some s =>
      rw [List.filterMap_cons_some h, List.getLast?_cons]
      cases (calls.filterMap f.taken?).getLast? <;> rfl

/-- What assignments make of a record is what the ones that a field takes make of it, and these
succeed one and all. -/
theorem assignAll_filter_takes (r : Record) (calls : List Assignment) :
    r.assignAll (calls.filter r.model.takes) = .ok (r.afterAll calls) := by
  induction calls generalizing r with
  | nil => rfl
  | cons a calls ih =>
    have hrest := ih (r.after a)
    rw [model_after] at hrest
    cases h : r.assign a.name a.value with
    | error e =>
      have htakes : ¬r.model.takes a = true := fun htakes => by
        obtain ⟨t, ht⟩ := exists_assign_iff.mpr (Model.takes_iff.mp htakes)
        cases h.symm.trans ht
      rw [after_of_error h] at hrest
      rw [List.filter_cons_of_neg htakes, hrest, afterAll, afterAll, List.foldl_cons,
        after_of_error h]
    | ok t =>
      have htakes := Model.takes_iff.mpr (exists_assign_iff.mp ⟨t, h⟩)
      rw [after_of_ok h] at hrest
      rw [List.filter_cons_of_pos htakes, assignAll, List.foldlM_cons, h]
      refine hrest.trans ?_
      rw [afterAll, afterAll, List.foldl_cons, after_of_ok h]

/-! ### Values assigned back -/

/-- Every field holds what its type makes of some value. -/
def Taken (r : Record) : Prop :=
  ∀ f ∈ r.model.fields, ∃ v s, f.type.convert v = .ok s ∧ r.held f.name = some s

theorem taken_blank (m : Model) : (blank m).Taken := by
  intro f hf
  obtain ⟨v, hv⟩ := f.type.exists_convert_eq_blank
  exact ⟨v, f.type.blank, hv, held_blank hf⟩

theorem Taken.after {r : Record} (h : r.Taken) (a : Assignment) : (r.after a).Taken := by
  intro f hf
  rw [model_after] at hf
  rw [held_after hf]
  cases hs : f.taken? a with
  | none =>
    rw [Option.none_or]
    exact h f hf
  | some s => exact ⟨a.value, s, (Field.taken?_eq_some_iff.mp hs).2, rfl⟩

theorem Taken.afterAll {r : Record} (h : r.Taken) (calls : List Assignment) :
    (r.afterAll calls).Taken := by
  induction calls generalizing r with
  | nil => exact h
  | cons a calls ih => exact ih (h.after a)

/-- Assigning to a field the value that it is written as changes nothing. -/
theorem Taken.assign_valueOf {r : Record} (h : r.Taken) {name : String} {v : Value}
    (hv : r.valueOf name = some v) : r.assign name v = .ok r := by
  obtain ⟨f, -, hfield, -, -⟩ := exists_of_valueOf hv
  have hf : f ∈ r.model.fields := List.mem_of_find?_eq_some hfield
  obtain rfl : f.name = name := by simpa using List.find?_some hfield
  obtain ⟨w, s, hs, hheld⟩ := h f hf
  rw [valueOf_eq_held, hheld, Option.map_some, Option.some.injEq] at hv
  subst hv
  -- the assignment succeeds and leaves in the field what it held, which makes the record the same
  obtain ⟨t, ht⟩ := exists_assign_iff.mpr ⟨f, hf, rfl, s, ScalarType.convert_again hs⟩
  obtain ⟨g, hg, hname, u, hu, hafter⟩ := held_of_assign ht
  obtain rfl := Model.eq_of_name_eq hf hg hname.symm
  cases (ScalarType.convert_again hs).symm.trans hu
  refine ht.trans (congrArg Except.ok (eq_of_held (model_of_assign ht) fun f' _ => ?_))
  rw [hafter]
  split
  · next hsame => rw [hsame, hheld]
  · rfl

theorem Taken.assignAll_valueOf {r : Record} (h : r.Taken) (names : List String) :
    r.assignAll (names.filterMap fun name => (r.valueOf name).map (Assignment.mk name)) =
      .ok r := by
  induction names with
  | nil => rfl
  | cons name names ih =>
    cases hv : r.valueOf name with
    | none => rw [List.filterMap_cons_none (by rw [hv]; rfl), ih]
    | some v =>
      rw [List.filterMap_cons_some (by rw [hv]; rfl), assignAll, List.foldlM_cons,
        h.assign_valueOf hv]
      exact ih

/-- A record that starts blank is what the successful assignments make of it. At every point an
assignment succeeds exactly if the name is one of the model's fields and the field's type takes the
value; one that fails changes nothing, and one that succeeds changes its own field alone. Each field
has the value that its type writes for the last one it took, or the blank's if it took none, and
there are no values under other names. Assigning to fields, all of them for one, the values that
they have leaves the record as it is. -/
theorem assignments_outcome (m : Model) (calls : List Assignment) :
    let r := (blank m).afterAll calls
    r.model = m ∧ (blank m).assignAll (calls.filter m.takes) = .ok r ∧
    (∀ a : Assignment, (∃ t, r.assign a.name a.value = .ok t) ↔
      ∃ f ∈ m.fields, f.name = a.name ∧ ∃ s, f.type.convert a.value = .ok s) ∧
    (∀ a e, r.assign a.name a.value = .error e → r.after a = r) ∧
    (∀ a t, r.assign a.name a.value = .ok t → r.after a = t ∧
      ∀ other ≠ a.name, t.valueOf other = r.valueOf other) ∧
    (∀ f ∈ m.fields, r.valueOf f.name =
      some ((calls.filterMap f.taken?).getLast?.getD f.type.blank).toValue) ∧
    (∀ name ∉ m.fieldNames, r.valueOf name = none) ∧
    ∀ names : List String, r.assignAll (names.filterMap fun name =>
      (r.valueOf name).map (Assignment.mk name)) = .ok r := by
  intro r
  have hmodel : r.model = m := model_afterAll (blank m) calls
  have htaken : r.Taken := (taken_blank m).afterAll calls
  refine ⟨hmodel, assignAll_filter_takes (blank m) calls, fun a => ?_, fun a e => after_of_error,
    fun a t h => ⟨after_of_ok h, fun other hother => ?_⟩, fun f hf => ?_, fun name hname => ?_,
    htaken.assignAll_valueOf⟩
  · rw [exists_assign_iff, hmodel]
  · obtain ⟨f, -, -, s, -, hheld⟩ := held_of_assign h
    rw [valueOf_eq_held, valueOf_eq_held, hheld, if_neg hother]
  · rw [valueOf_eq_held, held_afterAll hf, held_blank hf]
    cases (calls.filterMap f.taken?).getLast? <;> rfl
  · have hnone := r.isSome_valueOf name
    rw [hmodel, Model.hasField, List.contains_eq_mem, decide_eq_false hname] at hnone
    exact Option.not_isSome_iff_eq_none.mp (Bool.eq_false_iff.mp hnone)

/-- A truth value is taken as a number and an integer as a real, and a number out of range and a
field that there is not are passed over. -/
theorem assignments_outcome_mixed :
    let m : Model := ⟨"M", "m", [⟨"size", .int .uint8, "size", rfl⟩,
      ⟨"ratio", .double, "ratio", rfl⟩, ⟨"note", .option .text, "note", rfl⟩], by decide⟩
    let calls : List Assignment :=
      [⟨"size", .bool true⟩, ⟨"nose", .null⟩, ⟨"ratio", .integer 1⟩, ⟨"size", .integer 256⟩]
    let one : Double := ⟨0x3ff0000000000000⟩
    let r : Record := ⟨m, [.int 1, .double one, .none], rfl⟩
    let size : Field := ⟨"size", .int .uint8, "size", rfl⟩
    let wide : Assignment := ⟨"size", .integer 256⟩
    let noted : Record := ⟨m, [.int 1, .double one, .some (.text "x")], rfl⟩
    (blank m).afterAll calls = r ∧
      r.assign wide.name wide.value = .error (.mapping (.outOfRange 256 .uint8)) ∧
      r.after wide = r ∧ r.assign "note" (.text "x") = .ok noted ∧
      noted.valueOf "size" = r.valueOf "size" ∧ size ∈ m.fields ∧
      r.valueOf "size" = some (.integer 1) ∧ "nose" ∉ m.fieldNames ∧ r.valueOf "nose" = none ∧
      r.assignAll [⟨"size", .integer 1⟩, ⟨"ratio", .real one⟩, ⟨"note", .null⟩] = .ok r := by
  intro m calls one r size wide noted
  have hsized : (blank m).after ⟨"size", .bool true⟩ =
      ⟨m, [.int 1, .double .zero, .none], rfl⟩ := after_of_ok rfl
  have hunknown : Record.after ⟨m, [.int 1, .double .zero, .none], rfl⟩ ⟨"nose", .null⟩ =
      ⟨m, [.int 1, .double .zero, .none], rfl⟩ := after_of_error rfl
  have hrated : Record.after ⟨m, [.int 1, .double .zero, .none], rfl⟩ ⟨"ratio", .integer 1⟩ = r :=
    after_of_ok rfl
  have hwide : r.assign wide.name wide.value = .error (.mapping (.outOfRange 256 .uint8)) := rfl
  have hr : (blank m).afterAll calls = r := by
    rw [afterAll, List.foldl_cons, hsized, List.foldl_cons, hunknown, List.foldl_cons, hrated]
    exact after_of_error hwide
  have hnote : r.assign "note" (.text "x") = .ok noted := rfl
  have hsize : size ∈ m.fields := by decide
  have hnose : "nose" ∉ m.fieldNames := by decide
  have houtcome := assignments_outcome m calls
  rw [hr] at houtcome
  obtain ⟨-, -, -, hfailed, hdone, hfields, hothers, hback⟩ := houtcome
  exact ⟨hr, hwide, hfailed wide _ hwide, hnote,
    (hdone ⟨"note", .text "x"⟩ noted hnote).2 "size" (by decide), hsize, hfields size hsize, hnose,
    hothers "nose" hnose, hback m.fieldNames⟩

end Record

end SqlCompose
