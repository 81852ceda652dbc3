import SqlCompose.Value.Scalar

/-!
# Scalars written as values and read back

A scalar of a type is written as a value that the type takes back as the same scalar. Three things
are needed for it. The type can be stored, so that its integers fit the ones of values. An option
is one of typed scalars, so that null stands for absence alone. A single comes back from the double
that it is written as.

## Main definitions

* `ScalarType.isPlain`: types that tell absence apart from what is present.
* `Scalar.Survives`: scalars whose singles come back from doubles.

## Main results

* `ScalarType.convert_toValue`: a scalar is taken back from the value that it is written as.
* `ScalarType.cause_of_convert`: how a conversion fails.
-/

namespace SqlCompose

/-- Whether the type, if it is an option, is one of typed scalars, and neither one of any value nor
one of options. -/
def ScalarType.isPlain : ScalarType → Bool
  | option any | option (option _) => false
  | _ => true

/-- A single of the scalar is narrowed back from the double that it is widened to. -/
def Scalar.Survives : Scalar → Prop
  | single x => x.toDouble.toSingle = x
  | some s => s.Survives
  | _ => True

/-- The integers of a type that can be stored are integers of values. -/
theorem IntType.bounds_of_holds {t : IntType} {n : Int}
    (ht : (ScalarType.int t).isStorable = true) (h : t.holds n = true) :
    Int64.minValue.toInt ≤ n ∧ n ≤ Int64.maxValue.toInt := by
  rw [Int64.toInt_minValue, Int64.toInt_maxValue]
  simp only [holds, Bool.and_eq_true, decide_eq_true_eq] at h
  cases t <;> simp [least, greatest, signed, bits, pow2, ScalarType.isStorable] at h ht <;> omega

namespace ScalarType

theorem toInteger_integer {t : IntType} {n : Int} (ht : (int t).isStorable = true)
    (h : t.holds n = true) : toInteger (.integer (.ofInt n)) = .ok n := by
  obtain ⟨hleast, hgreatest⟩ := IntType.bounds_of_holds ht h
  rw [Int64.toInt_minValue] at hleast
  rw [Int64.toInt_maxValue] at hgreatest
  exact congrArg Except.ok (Int64.toInt_ofInt_of_le hleast (Int.lt_of_le_sub_one hgreatest))

/-- A typed scalar that is not an option is never written as null. -/
theorem toValue_ne_null {t : ScalarType} {s : Scalar} (hp : (option t).isPlain = true)
    (hs : t.admits s = true) : s.toValue ≠ .null := by
  fun_cases admits t s with
  | case1 | case8 | case9 => cases hp
  | case2 | case3 | case4 | case5 | case6 | case7 => exact Value.noConfusion
  | case10 => simp_all [admits]

theorem convert_option {t : ScalarType} {v : Value} (hv : v ≠ .null) :
    (option t).convert v = (t.convert v).map .some := by
  cases v with
  | null => exact absurd rfl hv
  | _ => rfl

/-- A scalar of a type is taken back from the value that it is written as. -/
theorem convert_toValue {t : ScalarType} {s : Scalar} (ht : t.isStorable = true)
    (hp : t.isPlain = true) (hs : t.admits s = true) (hx : s.Survives) :
    t.convert s.toValue = .ok s := by
  fun_induction admits t s with
  | case1 v => rfl
  | case2 t n =>
    rw [Scalar.toValue, convert, toInteger_integer ht hs]
    exact if_pos hs
  | case3 => rfl
  | case4 x => exact congrArg (Except.ok ∘ Scalar.single) hx
  | case5 b => rfl
  | case6 => rfl
  | case7 => rfl
  | case8 => rfl
  | case9 t s ih =>
    have hplain : t.isPlain = true := by cases t <;> first | rfl | cases hp
    rw [Scalar.toValue, convert_option (toValue_ne_null hp hs), ih ht hplain hs hx]
    rfl
  | case10 => cases hs

/-- A conversion fails on the kind of the value or on the range of a number. -/
theorem cause_of_convert {t : ScalarType} {v : Value} {e : Error} (h : t.convert v = .error e) :
    (∃ target, e = .mapping (.cannotConvert v.kind target)) ∨
      ∃ n type, e = .mapping (.outOfRange n type) := by
  induction t with
  | any => cases h
  | int t =>
    cases v with
    | integer n | bool b =>
      simp only [convert, toInteger, bind, Except.bind] at h
      split at h
      · cases h
      · cases h
        exact .inr ⟨_, _, rfl⟩
    | null | real x | text s | blob bs =>
      cases h
      exact .inl ⟨_, rfl⟩
  | double | single | text | bytes =>
    cases v <;> cases h
    all_goals exact .inl ⟨_, rfl⟩
  | bool =>
    simp only [convert] at h
    split at h
    · cases h
    · cases h
      exact .inl ⟨_, rfl⟩
  | option t ih =>
    by_cases hv : v = .null
    · subst hv
      cases h
    · rw [convert_option hv] at h
      cases hs : t.convert v with
      | ok s =>
        rw [hs] at h
        cases h
      | error e' =>
        rw [hs] at h
        cases h
        exact ih hs

end ScalarType

end SqlCompose
