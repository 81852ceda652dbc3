import SqlCompose.Model.Basic

/-!
# Records

A record holds one scalar for each field of its model, of the field's type. It starts blank, and
assigning a value to a field converts the value to the field's type. It is done in place, so that
there is a record afterwards whether it has succeeded or not: the same one if it has not.

## Main definitions

* `Record`, `Record.blank`: records, and the one that a row is read into.
* `Record.set`, `Record.assign`, `Record.valueOf`: writing and reading a field.
* `Record.expect`: a record taken as one of a given model.
-/

namespace SqlCompose

namespace Model

/-- Whether the scalars are one for each field, in order and of the field's type. -/
def admits : List Field → List Scalar → Bool
  | [], [] => true
  | f :: fs, s :: ss => f.type.admits s && admits fs ss
  | _, _ => false

end Model

/-- A record of a model. -/
@[ext]
structure Record where
  model : Model
  values : List Scalar
  admits_values : Model.admits model.fields values = true
  deriving DecidableEq, Repr

namespace Record

theorem admits_blank (fields : List Field) :
    Model.admits fields (fields.map fun f => f.type.blank) = true := by
  induction fields with
  | nil => rfl
  | cons f fs ih => simp [Model.admits, ScalarType.admits_blank, ih]

/-- The record in which every field holds its type's blank scalar. -/
def blank (m : Model) : Record where
  model := m
  values := m.fields.map fun f => f.type.blank
  admits_values := admits_blank m.fields

/-- Takes the value into the named field, in place: what comes of it, and the scalars afterwards. -/
def setField (table name : String) (v : Value) :
    List Field → List Scalar → Except Error Unit × List Scalar
  | f :: fs, s :: ss =>
    if f.name = name then
      match f.type.convert v with
      | .ok u => (.ok (), u :: ss)
      | .error e => (.error e, s :: ss)
    else (setField table name v fs ss).map id (s :: ·)
  | _, ss => (.error (.unknownField table name), ss)

theorem admits_setField {table name : String} {v : Value} {fs : List Field} {ss : List Scalar}
    (h : Model.admits fs ss = true) :
    Model.admits fs (setField table name v fs ss).2 = true := by
  fun_induction setField table name v fs ss with
  | case1 f fs s ss hname u hu =>
    rw [Model.admits, Bool.and_eq_true] at h ⊢
    exact ⟨ScalarType.admits_of_convert hu, h.2⟩
  | case2 => exact h
  | case3 f fs s ss hname ih =>
    rw [Model.admits, Bool.and_eq_true] at h
    exact Bool.and_eq_true_iff.mpr ⟨h.1, ih h.2⟩
  | case4 => exact h

/-- A value that is not taken leaves every scalar as it was. -/
theorem setField_of_error {table name : String} {v : Value} {fs : List Field} {ss : List Scalar}
    {e : Error} (h : (setField table name v fs ss).1 = .error e) :
    (setField table name v fs ss).2 = ss := by
  fun_induction setField table name v fs ss with
  | case1 => cases h
  | case2 => rfl
  | case3 f fs s ss hname ih => exact congrArg (s :: ·) (ih h)
  | case4 => rfl

/-- Assigns a value to the named field, in place: what comes of it, and the record afterwards. -/
def set (r : Record) (name : String) (v : Value) : Except Error Unit × Record :=
  ((setField r.model.table name v r.model.fields r.values).1,
    ⟨r.model, (setField r.model.table name v r.model.fields r.values).2,
      admits_setField r.admits_values⟩)

/-- What a call in place has made, if it succeeds. -/
def settled {α : Type} (call : Except Error Unit × α) : Except Error α := call.1.map fun _ => call.2

/-- The record with a value assigned to the named field. -/
def assign (r : Record) (name : String) (v : Value) : Except Error Record := settled (r.set name v)

theorem settled_map {α β : Type} (f : α → β) (call : Except Error Unit × α) :
    settled (call.map id f) = (settled call).map f := by
  obtain ⟨_ | _, a⟩ := call <;> rfl

theorem map_values_assign (r : Record) (name : String) (v : Value) : (r.assign name v).map values =
    settled (setField r.model.table name v r.model.fields r.values) :=
  (settled_map values (r.set name v)).symm

theorem assign_eq_ok_iff {r t : Record} {name : String} {v : Value} :
    r.assign name v = .ok t ↔ t.model = r.model ∧
      settled (setField r.model.table name v r.model.fields r.values) = .ok t.values := by
  rw [← map_values_assign, assign, settled]
  cases (r.set name v).1 with
  | error e => simp [Except.map]
  | ok _ =>
    simp only [Except.map, Except.ok.injEq]
    constructor
    · rintro rfl
      exact ⟨rfl, rfl⟩
    · rintro ⟨hmodel, hvalues⟩
      exact Record.ext hmodel.symm hvalues

theorem assign_eq_error_iff {r : Record} {name : String} {v : Value} {e : Error} :
    r.assign name v = .error e ↔ (r.set name v).1 = .error e := by
  rw [assign, settled]
  cases (r.set name v).1 <;> simp [Except.map]

/-- An assignment that fails changes no field. -/
theorem set_of_error {r : Record} {name : String} {v : Value} {e : Error}
    (h : (r.set name v).1 = .error e) : (r.set name v).2 = r :=
  Record.ext rfl (setField_of_error h)

/-- The value that the named field is written as. -/
def valueOf (r : Record) (name : String) : Option Value :=
  ((r.model.fields.zip r.values).find? (·.1.name = name)).map (·.2.toValue)

/-- The values of all fields, in declaration order. -/
def cells (r : Record) : List Value := r.values.map Scalar.toValue

@[simp] theorem model_blank (m : Model) : (blank m).model = m := rfl

/-- The record, if it is one of the model. -/
def as? (r : Record) (m : Model) : Option Record :=
  if r.model = m then some r else none

/-- The record taken as one of the model. -/
def expect (r : Record) (m : Model) : Except Error Record :=
  if r.model = m then .ok r else .error (.mapping (.wrongRecord m.table r.model.table))

end Record

end SqlCompose
