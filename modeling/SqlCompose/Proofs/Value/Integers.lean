import Mathlib.Algebra.Ring.Int.Defs
import SqlCompose.Proofs.Value.Conversion

/-!
# Integers of every width

The numbers of an integer type are what its bit patterns stand for, read with a sign or without one.
A conversion to the type takes exactly the values that stand for such a number, and keeps the
number. It never wraps or cuts, since it asks for the number first, which every value holds in 64
bits with a sign, and only then for the range of the type.

## Main definitions

* `IntType.Represents`: the numbers of the bit patterns of a type.
* `Value.number?`: the number that a value stands for.

## Main results

* `IntType.holds_iff`: the range that conversions check is the one of the bit patterns.
* `ScalarType.convert_int_eq_ok_iff`, `ScalarType.convert_int_eq_error_iff`: what a conversion to an
  integer type comes to.
* `ScalarType.integers_kept`: integers are converted, and written as values, without a loss.
-/

namespace SqlCompose

/-! ### The numbers of a type -/

namespace IntType

/-- The number is what some bit pattern of the type stands for. -/
def Represents (t : IntType) (n : Int) : Prop :=
  ∃ x : BitVec t.bits, (if t.signed then x.toInt else x.toNat) = n

theorem natCast_pow2 (k : Nat) : (pow2 k : Int) = 2 ^ k := Int.natCast_pow 2 k

theorem exists_toInt_iff {w : Nat} (hw : 0 < w) {n : Int} :
    (∃ x : BitVec w, x.toInt = n) ↔ -2 ^ (w - 1) ≤ n ∧ n < 2 ^ (w - 1) := by
  constructor
  · rintro ⟨x, rfl⟩
    exact ⟨x.le_toInt, BitVec.toInt_lt⟩
  · rintro ⟨hleast, hgreatest⟩
    exact ⟨.ofInt w n, BitVec.toInt_ofInt_eq_self hw hleast hgreatest⟩

theorem exists_toNat_iff {w : Nat} {n : Int} :
    (∃ x : BitVec w, (x.toNat : Int) = n) ↔ 0 ≤ n ∧ n < 2 ^ w := by
  constructor
  · rintro ⟨x, rfl⟩
    exact ⟨Int.natCast_nonneg _, by exact_mod_cast x.isLt⟩
  · rintro ⟨hleast, hgreatest⟩
    obtain ⟨k, rfl⟩ := Int.eq_ofNat_of_zero_le hleast
    have hlt : k < 2 ^ w := by exact_mod_cast hgreatest
    exact ⟨.ofNatLT k hlt, rfl⟩

/-- The range that conversions check is the one of the bit patterns. -/
theorem holds_iff {t : IntType} {n : Int} : t.holds n = true ↔ t.Represents n := by
  have hbits : 0 < t.bits := by cases t <;> decide
  rw [holds, Bool.and_eq_true, decide_eq_true_eq, decide_eq_true_eq, least, greatest, Represents]
  split
  · rw [exists_toInt_iff hbits, natCast_pow2, Int.le_sub_one_iff]
  · rw [exists_toNat_iff, natCast_pow2, Int.le_sub_one_iff]

/-- A value holds every number of a type that is stored. -/
theorem represents_int64 {t : IntType} (ht : (ScalarType.int t).isStorable = true) {n : Int}
    (h : t.Represents n) : int64.Represents n := by
  obtain ⟨hleast, hgreatest⟩ := bounds_of_holds ht (holds_iff.mpr h)
  rw [Int64.toInt_minValue] at hleast
  rw [Int64.toInt_maxValue] at hgreatest
  exact (exists_toInt_iff (by decide)).mpr ⟨hleast, Int.lt_of_le_sub_one hgreatest⟩

theorem toInt_ofInt {n : Int} (h : int64.Represents n) : (Int64.ofInt n).toInt = n := by
  obtain ⟨hleast, hgreatest⟩ := (exists_toInt_iff (by decide)).mp h
  exact Int64.toInt_ofInt_of_le hleast hgreatest

end IntType

/-! ### The number of a value -/

/-- The number that a value stands for: that of an integer, and 0 or 1 of a truth value. -/
def Value.number? : Value → Option Int
  | integer n => some n.toInt
  | bool b => some (if b then 1 else 0)
  | null | real _ | text _ | blob _ => none

/-- The number of a value is the one of the integer that it is written as. -/
theorem Value.number?_toValue {v : Value} {n : Int} (h : v.number? = some n) :
    (Scalar.int n).toValue.number? = some n := by
  cases v with
  | integer k =>
    cases h
    exact congrArg (some ∘ Int64.toInt) (Int64.ofInt_toInt k)
  | bool b =>
    cases h
    cases b <;> rfl
  | null | real x | text s | blob bs => cases h

namespace ScalarType

theorem toInteger_eq (v : Value) :
    toInteger v = match v.number? with
      | .some n => .ok n
      | .none => mismatch v .integer := by
  cases v with
  | bool b => cases b <;> rfl
  | _ => rfl

theorem convert_int_eq (t : IntType) (v : Value) :
    (int t).convert v = match v.number? with
      | .some n => if t.holds n then .ok (.int n) else .error (.mapping (.outOfRange n t))
      | .none => .error (.mapping (.cannotConvert v.kind .integer)) := by
  rw [convert, toInteger_eq]
  cases v.number? <;> rfl

/-- A conversion to an integer type succeeds exactly on the numbers of the type, and keeps them. -/
theorem convert_int_eq_ok_iff {t : IntType} {v : Value} {s : Scalar} :
    (int t).convert v = .ok s ↔ ∃ n, v.number? = some n ∧ t.Represents n ∧ s = .int n := by
  rw [convert_int_eq]
  cases hv : v.number? with
  | none => simp
  | some n =>
    by_cases hn : t.holds n = true
    · simp [hn, IntType.holds_iff.mp hn, eq_comm]
    · simp [hn, mt IntType.holds_iff.mpr hn]

/-- It fails on a value that is no number, and on a number out of the range of the type. -/
theorem convert_int_eq_error_iff {t : IntType} {v : Value} {e : Error} :
    (int t).convert v = .error e ↔
      v.number? = none ∧ e = .mapping (.cannotConvert v.kind .integer) ∨
      ∃ n, v.number? = some n ∧ ¬t.Represents n ∧ e = .mapping (.outOfRange n t) := by
  rw [convert_int_eq]
  cases hv : v.number? with
  | none => simp [eq_comm]
  | some n =>
    by_cases hn : t.holds n = true
    · simp [hn, IntType.holds_iff.mp hn]
    · simp [hn, mt IntType.holds_iff.mpr hn, eq_comm]

/-- What was made of a value is written as a value of the same number, so that every integer type
makes the same of both. -/
theorem convert_int_again {t u : IntType} {v : Value} {s : Scalar} (h : (int t).convert v = .ok s) :
    (int u).convert s.toValue = (int u).convert v := by
  obtain ⟨n, hn, -, rfl⟩ := convert_int_eq_ok_iff.mp h
  rw [convert_int_eq, convert_int_eq, hn, Value.number?_toValue hn]

/-- A conversion to an integer type takes exactly the integers and truth values whose number is one
of the type, and keeps the number; it fails on a value of another kind and on a number out of range.
A number of a type that is written as a value is written as the integer of the same number, which 64
bits with a sign hold and which the type takes back. What was converted and written as a value is
converted again by any integer type as the value that it was made of. -/
theorem integers_kept :
    (∀ t v s, (int t).convert v = .ok s ↔
      ∃ n, v.number? = some n ∧ t.Represents n ∧ s = .int n) ∧
    (∀ t v e, (int t).convert v = .error e ↔
      v.number? = none ∧ e = .mapping (.cannotConvert v.kind .integer) ∨
      ∃ n, v.number? = some n ∧ ¬t.Represents n ∧ e = .mapping (.outOfRange n t)) ∧
    (∀ t n, (int t).isStorable = true → t.Represents n →
      (∃ m, (Scalar.int n).toValue = .integer m ∧ m.toInt = n) ∧
      (int .int64).convert (Scalar.int n).toValue = .ok (.int n) ∧
      (int t).convert (Scalar.int n).toValue = .ok (.int n)) ∧
    ∀ t v s, (int t).isStorable = true → (int t).convert v = .ok s →
      ∀ u, (int u).convert s.toValue = (int u).convert v := by
  refine ⟨fun t v s => convert_int_eq_ok_iff, fun t v e => convert_int_eq_error_iff,
    fun t n ht hn => ?_, fun t v s _ h u => convert_int_again h⟩
  have hwide : IntType.int64.Represents n := IntType.represents_int64 ht hn
  have hnumber : (Scalar.int n).toValue.number? = some n :=
    congrArg some (IntType.toInt_ofInt hwide)
  exact ⟨⟨.ofInt n, rfl, IntType.toInt_ofInt hwide⟩,
    convert_int_eq_ok_iff.mpr ⟨n, hnumber, hwide, rfl⟩,
    convert_int_eq_ok_iff.mpr ⟨n, hnumber, hn, rfl⟩⟩

/-- The greatest number of 32 bits is kept without a sign and refused with one, and what a byte is
made of a truth value is the same to a wider type. -/
theorem integers_kept_greatest :
    let n : Int := 4294967295
    let v : Value := .integer 4294967295
    v.number? = some n ∧ (int .uint32).isStorable = true ∧ IntType.uint32.Represents n ∧
      ¬IntType.int32.Represents n ∧ (int .uint32).convert v = .ok (.int n) ∧
      (int .int32).convert v = .error (.mapping (.outOfRange n .int32)) ∧
      (∃ m, (Scalar.int n).toValue = .integer m ∧ m.toInt = n) ∧
      (int .int64).convert (Scalar.int n).toValue = .ok (.int n) ∧
      (int .uint8).isStorable = true ∧ (int .uint8).convert (.bool true) = .ok (.int 1) ∧
      (int .word).convert (Scalar.int 1).toValue = (int .word).convert (.bool true) := by
  intro n v
  obtain ⟨hok, herror, hwritten, hagain⟩ := integers_kept
  have hfits : IntType.uint32.Represents n := ⟨4294967295#32, rfl⟩
  have hexceeds : ¬IntType.int32.Represents n := mt IntType.holds_iff.mpr (by decide)
  have hbyte : (int .uint8).convert (.bool true) = .ok (.int 1) := rfl
  obtain ⟨hinteger, hwide, -⟩ := hwritten .uint32 n rfl hfits
  exact ⟨rfl, rfl, hfits, hexceeds, (hok .uint32 v (.int n)).mpr ⟨n, rfl, hfits, rfl⟩,
    (herror .int32 v _).mpr (.inr ⟨n, rfl, hexceeds, rfl⟩), hinteger, hwide, rfl, hbyte,
    hagain .uint8 (.bool true) (.int 1) rfl hbyte .word⟩

end ScalarType

end SqlCompose
