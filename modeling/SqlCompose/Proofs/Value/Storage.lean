import SqlCompose.Proofs.Text.Decoding
import SqlCompose.Proofs.Value.Rereading
import SqlCompose.Value.Cell

/-!
# Values kept in storage cells

A value that is put into a cell comes back as it was, but for a truth value, which comes back as one
of the integers 0 and 1. A typed scalar does not notice: the type of truth values takes these
integers, and no other type writes truth values. The type that keeps any value as it is does notice,
so that it is the one exception.

## Main results

* `Value.toValue_toCell_bool`, `Value.toValue_toCell_of_kind_ne`: the value that comes back.
* `ScalarType.convert_toCell`: a typed scalar is taken from the value that comes back for it.
* `Value.survives_storage`: what survives storage, text by text and type by type.
-/

namespace SqlCompose

namespace Value

/-- A truth value comes back as an integer. -/
theorem toValue_toCell_bool (b : Bool) :
    (bool b).toCell.toValue = integer (if b then 1 else 0) := by
  cases b <;> rfl

/-- A value of any other kind comes back as it was. A text comes back through its bytes, whatever
characters it has. -/
theorem toValue_toCell_of_kind_ne {v : Value} (h : v.kind ≠ .bool) : v.toCell.toValue = v := by
  cases v with
  | bool b => exact absurd rfl h
  | text s => exact congrArg Value.text (Utf8.decode_encode s)
  | null | integer n | real x | blob bytes => rfl

end Value

namespace ScalarType

/-- A scalar that is written as a truth value is taken from the integer that comes back for it. -/
theorem convert_toCell_bool {t : ScalarType} {x : Scalar} (hplain : t.isPlain = true)
    (hany : t ≠ any) (hx : t.admits x = true) {b : Bool} (hb : x.toValue = .bool b) :
    t.convert (Value.bool b).toCell.toValue = .ok x := by
  fun_induction admits t x with
  | case1 v => exact absurd rfl hany
  | case5 c =>
    cases hb
    cases b <;> rfl
  | case9 t x ih =>
    have hinner : t.isPlain = true ∧ t ≠ any := by
      cases t <;> first | exact ⟨rfl, ScalarType.noConfusion⟩ | cases hplain
    have hnull : (Value.bool b).toCell.toValue ≠ .null := by
      rw [Value.toValue_toCell_bool]
      exact Value.noConfusion
    rw [convert_option hnull, ih hinner.1 hinner.2 hx hb]
    rfl
  | case2 | case3 | case4 | case6 | case7 | case8 => cases hb
  | case10 => cases hx

/-- A typed scalar is taken from the value that comes back from storage for it. -/
theorem convert_toCell {t : ScalarType} {x : Scalar} (hstorable : t.isStorable = true)
    (hplain : t.isPlain = true) (hany : t ≠ any) (hx : t.admits x = true)
    (hsurvives : x.Survives) : t.convert x.toValue.toCell.toValue = .ok x := by
  by_cases hkind : x.toValue.kind = .bool
  · obtain ⟨b, hb⟩ : ∃ b, x.toValue = .bool b := by
      cases hv : x.toValue with
      | bool b => exact ⟨b, rfl⟩
      | _ =>
        rw [hv] at hkind
        cases hkind
    rw [hb]
    exact convert_toCell_bool hplain hany hx hb
  · rw [Value.toValue_toCell_of_kind_ne hkind]
    exact convert_toValue hstorable hplain hx hsurvives

end ScalarType

namespace Value

/-- A truth value comes back from storage as an integer, and any other value as it was. A text is
stored as the UTF-8 bytes that it is made of, which are read as the text again. Every scalar of a
type that can be stored is taken back by its type, with the exception of the type that keeps any
value as it is; options are those of such types, and a single is one that survives as a double. -/
theorem survives_storage :
    (∀ b, (bool b).toCell.toValue = integer (if b then 1 else 0)) ∧
    (∀ v : Value, v.kind ≠ .bool → v.toCell.toValue = v) ∧
    (∀ s, (text s).toCell = .text s.toUTF8.data.toList ∧
      Utf8.decode s.toUTF8.data.toList = s) ∧
    ∀ (t : ScalarType) (x : Scalar), t.isStorable = true → t.isPlain = true → t ≠ .any →
      t.admits x = true → (t.base = .single → x.Survives) →
        t.convert x.toValue.toCell.toValue = .ok x := by
  refine ⟨toValue_toCell_bool, fun v => toValue_toCell_of_kind_ne, fun s => ?_,
    fun t x hstorable hplain hany hx hsingle => ?_⟩
  · rw [← Utf8.encode_eq_toUTF8]
    exact ⟨rfl, Utf8.decode_encode s⟩
  · refine ScalarType.convert_toCell hstorable hplain hany hx ?_
    by_cases hbase : t.base = .single
    · exact hsingle hbase
    · exact ScalarType.survives_of_admits hbase hx

/-- A text with the null character and characters of two, three and four bytes, in an option, and a
truth value. -/
theorem survives_storage_option :
    let t : ScalarType := .option .text
    let x : Scalar := .some (.text "\x00é€𝄞")
    let bytes : List UInt8 := [0x00, 0xC3, 0xA9, 0xE2, 0x82, 0xAC, 0xF0, 0x9D, 0x84, 0x9E]
    t.isStorable = true ∧ t.isPlain = true ∧ t ≠ .any ∧ t.admits x = true ∧ t.base ≠ .single ∧
      x.toValue.kind ≠ .bool ∧ x.toValue.toCell = .text bytes ∧
      (Cell.text bytes).toValue = x.toValue ∧ t.convert (Cell.text bytes).toValue = .ok x ∧
      ScalarType.bool.convert (Value.bool true).toCell.toValue = .ok (.bool true) := by
  intro t x bytes
  obtain ⟨-, hvalues, -, htypes⟩ := survives_storage
  have hcell : x.toValue.toCell = .text bytes := by decide
  have hkind : x.toValue.kind ≠ .bool := Kind.noConfusion
  have hbase : t.base ≠ .single := ScalarType.noConfusion
  have hany : t ≠ .any := ScalarType.noConfusion
  have hvalue := hvalues x.toValue hkind
  have htype := htypes t x rfl rfl hany rfl fun h => absurd h hbase
  rw [hcell] at hvalue htype
  exact ⟨rfl, rfl, hany, rfl, hbase, hkind, hcell, hvalue, htype,
    htypes .bool (.bool true) rfl rfl ScalarType.noConfusion rfl nofun⟩

end Value

end SqlCompose
