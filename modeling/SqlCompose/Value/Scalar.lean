import SqlCompose.Error

/-!
# Typed scalars

A `Scalar` is what a field holds or an extraction gives: the content of a value after its type has
taken it. `ScalarType.convert` takes values in and `Scalar.toValue` gives them back.

## Main definitions

* `Scalar`, `ScalarType.admits`: typed scalars, and the ones of a type.
* `ScalarType.convert`: conversion of a value, which fails rather than wrap or cut.
* `Scalar.toValue`: a scalar written as a value.

## Main results

* `ScalarType.admits_of_convert`: a conversion gives scalars of its type only.
-/

namespace SqlCompose

/-- The content of a typed field. -/
inductive Scalar where
  | any (v : Value)
  | int (n : Int)
  | double (x : Double)
  | single (x : Single)
  | bool (b : Bool)
  | text (s : String)
  | bytes (bytes : List UInt8)
  | none
  | some (s : Scalar)
  deriving DecidableEq, Repr, Inhabited

/-- The value that a scalar is written as. -/
def Scalar.toValue : Scalar → Value
  | any v => v
  | int n => .integer (.ofInt n)
  | double x => .real x
  | single x => .real x.toDouble
  | bool b => .bool b
  | text s => .text s
  | bytes bs => .blob bs
  | none => .null
  | some s => s.toValue

namespace ScalarType

/-- Whether the scalar is one of the type. -/
def admits : ScalarType → Scalar → Bool
  | any, .any _ => true
  | int t, .int n => t.holds n
  | double, .double _ => true
  | single, .single _ => true
  | bool, .bool _ => true
  | text, .text _ => true
  | bytes, .bytes _ => true
  | option _, .none => true
  | option t, .some s => t.admits s
  | _, _ => false

/-- The scalar that a blank record holds in a field of the type. -/
def blank : ScalarType → Scalar
  | any => .any .null
  | int _ => .int 0
  | double => .double .zero
  | single => .single .zero
  | bool => .bool false
  | text => .text ""
  | bytes => .bytes []
  | option _ => .none

/-- The failure of a conversion on the kind of the value. -/
def mismatch {α : Type} (v : Value) (target : ConversionTarget) : Except Error α :=
  .error (.mapping (.cannotConvert v.kind target))

/-- The number of an integer, or of a boolean as 0 or 1. -/
def toInteger : Value → Except Error Int
  | .integer n => .ok n.toInt
  | .bool b => .ok b.toInt
  | v => mismatch v .integer

/-- The number of a real, or of an integer rounded to a real. -/
def toReal : Value → Except Error Double
  | .real x => .ok x
  | .integer n => .ok (.ofInt n.toInt)
  | v => mismatch v .real

/-- Takes a value into the type. -/
def convert : ScalarType → Value → Except Error Scalar
  | any, v => .ok (.any v)
  | int t, v => do
    let n ← toInteger v
    if t.holds n then .ok (.int n) else .error (.mapping (.outOfRange n t))
  | double, v => do return .double (← toReal v)
  | single, v => do return .single (← toReal v).toSingle
  | bool, v =>
    match v.bool? with
    | .some b => .ok (.bool b)
    | .none => mismatch v .bool
  | text, .text s => .ok (.text s)
  | text, v => mismatch v .text
  | bytes, .blob bs => .ok (.bytes bs)
  | bytes, .text s => .ok (.bytes (Utf8.encode s))
  | bytes, v => mismatch v .bytes
  | option _, .null => .ok .none
  | option t, v => do return .some (← t.convert v)

theorem holds_zero (t : IntType) : t.holds 0 = true := by
  cases t <;> decide

theorem admits_blank (t : ScalarType) : t.admits t.blank = true := by
  cases t <;> simp [blank, admits, holds_zero]

/-- A conversion gives scalars of its type only. -/
theorem admits_of_convert {t : ScalarType} {v : Value} {s : Scalar}
    (h : t.convert v = .ok s) : t.admits s = true := by
  induction t generalizing v s with
  | any => simp only [convert, Except.ok.injEq] at h; subst h; rfl
  | int t =>
    simp only [convert, bind, Except.bind] at h
    split at h
    · simp at h
    · split at h
      · simp only [Except.ok.injEq] at h; subst h; simpa [admits]
      · simp at h
  | double =>
    simp only [convert, bind, Except.bind, pure, Except.pure] at h
    split at h
    · simp at h
    · simp only [Except.ok.injEq] at h; subst h; rfl
  | single =>
    simp only [convert, bind, Except.bind, pure, Except.pure] at h
    split at h
    · simp at h
    · simp only [Except.ok.injEq] at h; subst h; rfl
  | bool =>
    simp only [convert] at h
    split at h
    · simp only [Except.ok.injEq] at h; subst h; rfl
    · simp [mismatch] at h
  | text =>
    cases v <;> simp only [convert, mismatch, Except.ok.injEq, reduceCtorEq] at h
    subst h; rfl
  | bytes =>
    cases v <;> simp only [convert, mismatch, Except.ok.injEq, reduceCtorEq] at h
    all_goals subst h; rfl
  | option t ih =>
    by_cases hv : v = .null
    · subst hv; simp only [convert, Except.ok.injEq] at h; subst h; rfl
    · have h' : (t.convert v).map Scalar.some = .ok s := by
        cases v <;> first | exact absurd rfl hv | exact h
      cases hc : t.convert v with
      | error e => rw [hc] at h'; simp [Except.map] at h'
      | ok u =>
        rw [hc] at h'; simp only [Except.map, Except.ok.injEq] at h'
        subst h'
        simpa [admits] using ih hc

end ScalarType

end SqlCompose
