import SqlCompose.Proofs.Numeric.Widening
import SqlCompose.Proofs.Value.Conversion

/-!
# Values read through another type

A value that a scalar of one type is written as may be taken by another type, and what the other
type writes back need not be the value: an integer is taken as a real or as a truth value, a truth
value as an integer, a text as bytes, and a double is rounded to a single. Whether this can happen
is a matter of the two types, options aside.

## Main definitions

* `ScalarType.kinds`, `ScalarType.turned`: the kinds of values that a type writes, and those that it
  takes and writes back as another kind.
* `ScalarType.alters`: whether one type alters a value of the other.

## Main results

* `ScalarType.alters_iff`: a type alters some value of another exactly if the table says so.
-/

namespace SqlCompose.ScalarType

/-- The type under its options. -/
def base : ScalarType → ScalarType
  | option t => t.base
  | t => t

/-- The kinds of the values that scalars of the type are written as, null aside. -/
def kinds : ScalarType → List Kind
  | any => [.bool, .integer, .real, .text, .blob]
  | int _ => [.integer]
  | double | single => [.real]
  | bool => [.bool]
  | text => [.text]
  | bytes => [.blob]
  | option t => t.kinds

/-- The kinds of values that the type takes and writes back as values of another kind. -/
def turned : ScalarType → List Kind
  | int _ => [.bool]
  | double | single | bool => [.integer]
  | bytes => [.text]
  | any | text => []
  | option t => t.turned

/-- Whether the target rounds reals of the source. -/
def rounds (target source : ScalarType) : Bool :=
  target.base = single && (source.base = double || source.base = any)

/-- Whether some value of the source comes back from the target as another value. -/
def alters (target source : ScalarType) : Bool :=
  source.kinds.any (fun k => k ∈ target.turned) || target.rounds source

/-! ### Values that are kept -/

theorem kind_of_admits {t : ScalarType} {s : Scalar} (h : t.admits s = true) :
    s.toValue = .null ∨ s.toValue.kind ∈ t.kinds := by
  fun_induction admits t s with
  | case1 v => cases v <;> simp [Scalar.toValue, Value.kind, kinds]
  | case2 | case3 | case4 | case5 | case6 | case7 =>
    exact .inr (by simp [Scalar.toValue, Value.kind, kinds])
  | case8 => exact .inl rfl
  | case9 t s ih => exact ih h
  | case10 => cases h

theorem null_notMem_turned (t : ScalarType) : .null ∉ t.turned := by
  induction t with
  | option t ih => exact ih
  | _ => simp [turned]

/-- A value whose kind the type does not turn is kept, unless the type rounds it. -/
theorem toValue_of_convert {t : ScalarType} {v : Value} {s : Scalar} (h : t.convert v = .ok s)
    (hkind : v.kind ∉ t.turned) : s.toValue = v ∨
      t.base = single ∧ ∃ x, v = .real x ∧ s.toValue = .real x.toSingle.toDouble := by
  induction t generalizing s with
  | any =>
    cases h
    exact .inl rfl
  | int t =>
    cases v with
    | integer n =>
      simp only [convert, toInteger, bind, Except.bind] at h
      split at h
      · cases h
        exact .inl (congrArg Value.integer (Int64.ofInt_toInt n))
      · cases h
    | bool b => exact absurd List.mem_cons_self hkind
    | null | real x | text s | blob bs => cases h
  | double =>
    cases v with
    | real x =>
      cases h
      exact .inl rfl
    | integer n => exact absurd List.mem_cons_self hkind
    | null | bool b | text s | blob bs => cases h
  | single =>
    cases v with
    | real x =>
      cases h
      exact .inr ⟨rfl, x, rfl, rfl⟩
    | integer n => exact absurd List.mem_cons_self hkind
    | null | bool b | text s | blob bs => cases h
  | bool =>
    cases v with
    | bool b =>
      cases h
      exact .inl rfl
    | integer n => exact absurd List.mem_cons_self hkind
    | null | real x | text s | blob bs => cases h
  | text =>
    cases v with
    | text s =>
      cases h
      exact .inl rfl
    | null | bool b | integer n | real x | blob bs => cases h
  | bytes =>
    cases v with
    | blob bs =>
      cases h
      exact .inl rfl
    | text s => exact absurd List.mem_cons_self hkind
    | null | bool b | integer n | real x => cases h
  | option t ih =>
    by_cases hv : v = .null
    · subst hv
      cases h
      exact .inl rfl
    · rw [convert_option hv] at h
      cases hs : t.convert v with
      | error e =>
        rw [hs] at h
        cases h
      | ok u =>
        rw [hs] at h
        cases h
        have hbase := ih hs hkind
        exact hbase

/-- A scalar of a type that is not one of singles has none that could be lost. -/
theorem survives_of_admits {t : ScalarType} {s : Scalar} (ht : t.base ≠ single)
    (hs : t.admits s = true) : s.Survives := by
  fun_induction admits t s with
  | case4 x => exact absurd rfl ht
  | case9 t s ih => exact ih ht hs
  | case10 => cases hs
  | _ => exact trivial

/-- A type that does not write doubles writes no real but those of singles. -/
theorem exists_single_of_admits {t : ScalarType} {s : Scalar} (h : t.admits s = true)
    (hany : t.base ≠ any) (hdouble : t.base ≠ double) {x : Double} (hs : s.toValue = .real x) :
    ∃ y : Single, x = y.toDouble := by
  fun_induction admits t s with
  | case1 v => exact absurd rfl hany
  | case3 y => exact absurd rfl hdouble
  | case4 y =>
    cases hs
    exact ⟨y, rfl⟩
  | case2 | case5 | case6 | case7 | case8 => cases hs
  | case9 t s ih => exact ih h hany hdouble hs
  | case10 => cases h

/-- A scalar of a type that the target does not alter is written back as it is written. -/
theorem toValue_eq_of_convert {target source : ScalarType} (h : target.alters source = false)
    {x u : Scalar} (hx : source.admits x = true) (hu : target.convert x.toValue = .ok u) :
    u.toValue = x.toValue := by
  obtain ⟨hkinds, hrounds⟩ := Bool.or_eq_false_iff.mp h
  have hkind : x.toValue.kind ∉ target.turned := by
    intro hturned
    obtain hnull | hkind := kind_of_admits hx
    · rw [hnull] at hturned
      exact null_notMem_turned target hturned
    · exact List.any_eq_false.mp hkinds _ hkind (decide_eq_true hturned)
  obtain hkept | ⟨hsingle, y, hy, hrounded⟩ := toValue_of_convert hu hkind
  · exact hkept
  · obtain ⟨z, rfl⟩ : ∃ z : Single, y = z.toDouble := by
      refine exists_single_of_admits hx ?_ ?_ hy <;> intro hbase <;>
        simp [rounds, hsingle, hbase] at hrounds
    rw [hrounded, hy, Single.toDouble_toSingle_toDouble]

/-! ### Values that are altered -/

/-- A value of a kind that every type writes which writes values of the kind. -/
def sample : Kind → Value
  | .null => .null
  | .bool => .bool false
  | .integer => .integer 0
  | .real => .real .zero
  | .text => .text ""
  | .blob => .blob []

theorem exists_admits_sample {t : ScalarType} {k : Kind} (h : k ∈ t.kinds) :
    ∃ x, t.admits x = true ∧ x.toValue = sample k := by
  induction t with
  | any => exact ⟨.any (sample k), rfl, rfl⟩
  | int t =>
    obtain rfl := List.mem_singleton.mp h
    exact ⟨.int 0, holds_zero t, rfl⟩
  | double =>
    obtain rfl := List.mem_singleton.mp h
    exact ⟨.double .zero, rfl, rfl⟩
  | single =>
    obtain rfl := List.mem_singleton.mp h
    exact ⟨.single .zero, rfl, by decide⟩
  | bool =>
    obtain rfl := List.mem_singleton.mp h
    exact ⟨.bool false, rfl, rfl⟩
  | text =>
    obtain rfl := List.mem_singleton.mp h
    exact ⟨.text "", rfl, rfl⟩
  | bytes =>
    obtain rfl := List.mem_singleton.mp h
    exact ⟨.bytes [], rfl, rfl⟩
  | option t ih =>
    obtain ⟨x, hx, hvalue⟩ := ih h
    exact ⟨.some x, hx, hvalue⟩

theorem exists_convert_sample {t : ScalarType} {k : Kind} (h : k ∈ t.turned) :
    ∃ u, t.convert (sample k) = .ok u ∧ u.toValue ≠ sample k := by
  induction t with
  | any | text => cases h
  | int t =>
    obtain rfl := List.mem_singleton.mp h
    exact ⟨.int 0, if_pos (holds_zero t), Value.noConfusion⟩
  | double =>
    obtain rfl := List.mem_singleton.mp h
    exact ⟨_, rfl, Value.noConfusion⟩
  | single =>
    obtain rfl := List.mem_singleton.mp h
    exact ⟨_, rfl, Value.noConfusion⟩
  | bool =>
    obtain rfl := List.mem_singleton.mp h
    exact ⟨.bool false, rfl, Value.noConfusion⟩
  | bytes =>
    obtain rfl := List.mem_singleton.mp h
    exact ⟨_, rfl, Value.noConfusion⟩
  | option t ih =>
    obtain ⟨u, hu, hvalue⟩ := ih h
    have hnull : sample k ≠ .null := by
      rintro hsample
      have hk : k = .null := by cases k <;> first | rfl | cases hsample
      exact null_notMem_turned t (hk ▸ h)
    refine ⟨.some u, ?_, hvalue⟩
    rw [convert_option hnull, hu]
    rfl

theorem exists_admits_real {t : ScalarType} (h : t.base = double ∨ t.base = any) (x : Double) :
    ∃ s, t.admits s = true ∧ s.toValue = .real x := by
  induction t with
  | any => exact ⟨.any (.real x), rfl, rfl⟩
  | double => exact ⟨.double x, rfl, rfl⟩
  | int _ | single | bool | text | bytes => simp [base] at h
  | option t ih =>
    obtain ⟨s, hs, hvalue⟩ := ih h
    exact ⟨.some s, hs, hvalue⟩

theorem convert_real {t : ScalarType} (h : t.base = single) (x : Double) :
    ∃ s, t.convert (.real x) = .ok s ∧ s.toValue = .real x.toSingle.toDouble := by
  induction t with
  | single => exact ⟨.single x.toSingle, rfl, rfl⟩
  | any | int _ | double | bool | text | bytes => cases h
  | option t ih =>
    obtain ⟨s, hs, hvalue⟩ := ih h
    refine ⟨.some s, ?_, hvalue⟩
    rw [convert_option Value.noConfusion, hs]
    rfl

/-- A type alters some value of another exactly if there is a scalar of the other that it takes and
writes back as another value. -/
theorem alters_iff {target source : ScalarType} : target.alters source = true ↔
    ∃ x u, source.admits x = true ∧ target.convert x.toValue = .ok u ∧ u.toValue ≠ x.toValue := by
  constructor
  · intro h
    obtain hkinds | hrounds := Bool.or_eq_true_iff.mp h
    · obtain ⟨k, hk, hturned⟩ := List.any_eq_true.mp hkinds
      obtain ⟨x, hx, hvalue⟩ := exists_admits_sample hk
      obtain ⟨u, hu, hne⟩ := exists_convert_sample (of_decide_eq_true hturned)
      exact ⟨x, u, hx, by rw [hvalue, hu], by rw [hvalue]; exact hne⟩
    · obtain ⟨hsingle, hreals⟩ : target.base = single ∧
          (source.base = double ∨ source.base = any) := by simpa [rounds] using hrounds
      -- the double next to one is rounded to one
      obtain ⟨x, hx, hvalue⟩ := exists_admits_real hreals ⟨0x3ff0000000000001⟩
      obtain ⟨u, hu, hrounded⟩ := convert_real hsingle ⟨0x3ff0000000000001⟩
      refine ⟨x, u, hx, by rw [hvalue, hu], ?_⟩
      rw [hvalue, hrounded]
      decide
  · rintro ⟨x, u, hx, hu, hne⟩
    by_contra h
    exact hne (toValue_eq_of_convert (Bool.not_eq_true _ ▸ h) hx hu)

end SqlCompose.ScalarType
